/-
Optimistic sends of the web client (`apps/web-app/app/components/ChannelView.tsx`, `handleSend` and `ws.onmessage`): a
placeholder, the created message in its place, and the echo of that message.

`Reconciled` is what holds of `extraMessages` and of the sends of the channel that is shown: no id twice, a placeholder for
each send under way and for no other, the message of each send that has succeeded. `reconciled` follows a channel view from
one moment to a later one, whatever came before it.
-/
import Concordia.Web.ChannelView

namespace Concordia.Web.ChannelView

open Concordia.Lib

/-- no send was started in this millisecond before -/
def FreshTime (s : St) (o : Op) : Prop := ∀ now, o.startedAt = some now → .opt now ∉ s.sends.map Send.tempId

/-- the channel is not left -/
def Stays (o : Op) : Prop := ∀ channelId connect, o ≠ .navigate channelId connect

/-! ## The invariant -/

structure Reconciled (view : ℕ) (extraMessages : List Message) (sends : List Send) : Prop where
  nodup : (ids extraMessages).Nodup
  temps : (sends.map Send.tempId).Nodup
  opt : ∀ send ∈ sends, ∃ now, send.tempId = .opt now
  views : ∀ send ∈ sends, send.view ≤ view
  /-- a placeholder is that of a send under way -/
  placeholders : ∀ now, .opt now ∈ ids extraMessages →
    ∃ send ∈ sends, send.tempId = .opt now ∧ send.view = view ∧ send.outcome = .pending
  pending : ∀ send ∈ sends, send.view = view → send.outcome = .pending → send.tempId ∈ ids extraMessages
  stored : ∀ send ∈ sends, ∀ real, send.outcome = .created real → ∃ id, real.messageId = .stored id
  created : ∀ send ∈ sends, send.view = view → ∀ real, send.outcome = .created real →
    real.messageId ∈ ids extraMessages

namespace Reconciled

variable {view : ℕ} {extraMessages : List Message} {sends : List Send}

/-- the next channel is shown -/
theorem navigate (h : Reconciled view extraMessages sends) : Reconciled (view + 1) [] sends := by
  have hpast : ∀ send ∈ sends, send.view ≠ view + 1 := fun send hsend => (Nat.lt_succ_of_le (h.views send hsend)).ne
  exact ⟨List.nodup_nil, h.temps, h.opt, fun send hsend => (h.views send hsend).trans view.le_succ, nofun,
    fun send hsend hview => absurd hview (hpast send hsend), h.stored,
    fun send hsend hview => absurd hview (hpast send hsend)⟩

theorem handleSend (h : Reconciled view extraMessages sends) {m : Message} {send : Send}
    (hm : m.messageId = send.tempId) (hopt : ∃ now, send.tempId = .opt now) (hfresh : send.tempId ∉ sends.map Send.tempId)
    (hview : send.view = view) (hpending : send.outcome = .pending) :
    Reconciled view (extraMessages ++ [m]) (sends ++ [send]) := by
  have hnew : m.messageId ∉ ids extraMessages := by
    intro hmem
    obtain ⟨now, hnow⟩ := hopt
    rw [hm, hnow] at hmem
    obtain ⟨other, hother, htemp, -⟩ := h.placeholders now hmem
    exact hfresh (hnow ▸ htemp ▸ List.mem_map_of_mem hother)
  have hids : ids (extraMessages ++ [m]) = ids extraMessages ++ [m.messageId] := by rw [ids_append]; rfl
  refine ⟨nodup_keys_snoc h.nodup hnew, nodup_keys_snoc h.temps hfresh, ?_, ?_, ?_, ?_, ?_, ?_⟩
  · intro x hx
    rcases mem_snoc.1 hx with hx | rfl
    · exact h.opt x hx
    · exact hopt
  · intro x hx
    rcases mem_snoc.1 hx with hx | rfl
    · exact h.views x hx
    · exact hview.le
  · intro now hnow
    rw [hids] at hnow
    rcases mem_snoc.1 hnow with hnow | hnow
    · obtain ⟨x, hx, hplace⟩ := h.placeholders now hnow
      exact ⟨x, List.mem_append_left _ hx, hplace⟩
    · exact ⟨send, List.mem_append_right _ (List.mem_singleton_self _), (hnow.trans hm).symm, hview, hpending⟩
  · intro x hx hv hp
    rw [hids]
    rcases mem_snoc.1 hx with hx | rfl
    · exact List.mem_append_left _ (h.pending x hx hv hp)
    · exact List.mem_append_right _ (by rw [hm]; exact List.mem_singleton_self _)
  · intro x hx real hreal
    rcases mem_snoc.1 hx with hx | rfl
    · exact h.stored x hx real hreal
    · rw [hpending] at hreal
      cases hreal
  · intro x hx hv real hreal
    rw [hids]
    rcases mem_snoc.1 hx with hx | rfl
    · exact List.mem_append_left _ (h.created x hx hv real hreal)
    · rw [hpending] at hreal
      cases hreal

/-- a message is pushed -/
theorem appendNew (h : Reconciled view extraMessages sends) {m : Message} (hstored : ∃ id, m.messageId = .stored id) :
    Reconciled view (appendNew m extraMessages) sends := by
  refine ⟨nodup_appendNew h.nodup m, h.temps, h.opt, h.views, ?_, ?_, h.stored, ?_⟩
  · intro now hnow
    rcases mem_ids_appendNew.1 hnow with hnow | hm
    · exact h.placeholders now hnow
    · obtain ⟨id, hid⟩ := hstored
      rw [hid] at hm
      cases hm
  · exact fun send hsend hview hpending => mem_ids_appendNew.2 (.inl (h.pending send hsend hview hpending))
  · exact fun send hsend hview real hreal => mem_ids_appendNew.2 (.inl (h.created send hsend hview real hreal))

/-- a send is settled, and the list loses its placeholder and, with a created message, has that one -/
theorem settle (h : Reconciled view extraMessages sends) {i : ℕ} {send : Send} (hi : sends[i]? = some send)
    (hpending : send.outcome = .pending) (outcome : Outcome) (houtcome : outcome ≠ .pending)
    (hstored : ∀ real, outcome = .created real → ∃ id, real.messageId = .stored id) {l : List Message}
    (hnodup : (ids l).Nodup)
    (hkept : ∀ id ∈ ids extraMessages, id ≠ send.tempId → id ∈ ids l)
    (hfrom : ∀ now, .opt now ∈ ids l → .opt now ∈ ids extraMessages ∧ .opt now ≠ send.tempId)
    (hreal : send.view = view → ∀ real, outcome = .created real → real.messageId ∈ ids l) :
    Reconciled view l (sends.set i { send with outcome := outcome }) := by
  have hmem := List.mem_of_getElem? hi
  have htemps : (sends.set i { send with outcome := outcome }).map Send.tempId = sends.map Send.tempId :=
    map_set_key hi rfl
  have hcases : ∀ x ∈ sends.set i { send with outcome := outcome },
      x = { send with outcome := outcome } ∨ x ∈ sends ∧ x.tempId ≠ send.tempId :=
    fun x hx => mem_set_of_nodup h.temps hi hx
  refine ⟨hnodup, htemps ▸ h.temps, ?_, ?_, ?_, ?_, ?_, ?_⟩
  · intro x hx
    rcases hcases x hx with rfl | ⟨hx, -⟩
    · exact h.opt send hmem
    · exact h.opt x hx
  · intro x hx
    rcases hcases x hx with rfl | ⟨hx, -⟩
    · exact h.views send hmem
    · exact h.views x hx
  · intro now hnow
    obtain ⟨hold, hne⟩ := hfrom now hnow
    obtain ⟨x, hx, htemp, hrest⟩ := h.placeholders now hold
    refine ⟨x, mem_set_of_ne hi hx ?_, htemp, hrest⟩
    rintro rfl
    exact hne htemp.symm
  · intro x hx hv hp
    rcases hcases x hx with rfl | ⟨hx, hne⟩
    · exact absurd hp houtcome
    · exact hkept _ (h.pending x hx hv hp) hne
  · intro x hx real hr
    rcases hcases x hx with rfl | ⟨hx, -⟩
    · exact hstored real hr
    · exact h.stored x hx real hr
  · intro x hx hv real hr
    rcases hcases x hx with rfl | ⟨hx, -⟩
    · exact hreal hv real hr
    · apply hkept _ (h.created x hx hv real hr)
      obtain ⟨id, hid⟩ := h.stored x hx real hr
      obtain ⟨now, hnow⟩ := h.opt send hmem
      rw [hid, hnow]
      nofun

theorem start (channelId : String) (connect : Connect) : Reconciled (start channelId connect).view
    (ChannelView.start channelId connect).extraMessages (ChannelView.start channelId connect).sends := by
  simp only [ChannelView.start, connectWs_view, connectWs_extraMessages, connectWs_sends]
  constructor <;> simp [ids]

/-- a settled send has no placeholder -/
theorem settled_gone (h : Reconciled view extraMessages sends) {send : Send} (hmem : send ∈ sends)
    (hsettled : send.outcome ≠ .pending) : send.tempId ∉ ids extraMessages := by
  intro hid
  obtain ⟨now, hnow⟩ := h.opt send hmem
  obtain ⟨other, hother, htemp, -, hpending⟩ := h.placeholders now (hnow ▸ hid)
  have hsame : other = send := eq_of_key h.temps hother hmem (htemp.trans hnow.symm)
  exact hsettled (hsame ▸ hpending)

end Reconciled

section

variable {s : St} (h : Reconciled s.view s.extraMessages s.sends)

include h

theorem settle_reconciled {i : ℕ} {send : Send} (hi : s.sends[i]? = some send) (hpending : send.outcome = .pending)
    {real : Option Message} (hstored : ∀ r, real = some r → ∃ id, r.messageId = .stored id) :
    Reconciled (s.settle i send real).view (s.settle i send real).extraMessages (s.settle i send real).sends := by
  cases real with
  | none =>
    refine h.settle hi hpending .failed nofun nofun ?_ ?_ ?_ fun _ => nofun
    · exact ids_dropId _ _ ▸ h.nodup.filter _
    · exact fun id hid hne => mem_ids_dropId.2 ⟨hid, hne⟩
    · exact fun now hnow => mem_ids_dropId.1 hnow
  | some r =>
    obtain ⟨id, hid⟩ := hstored r rfl
    obtain ⟨now, hnow⟩ := h.opt send (List.mem_of_getElem? hi)
    have hne : r.messageId ≠ send.tempId := by
      rw [hid, hnow]
      nofun
    have hout : ∀ real, Outcome.created r = .created real → real = r := fun real he => (Outcome.created.inj he).symm
    refine h.settle hi hpending (.created r) nofun ?_ ?_ ?_ ?_ ?_
    · intro real he
      exact hout real he ▸ ⟨id, hid⟩
    · exact nodup_confirm h.nodup _ _ _
    · exact fun x hx hxne => (mem_ids_confirm _ hne).2 (.inl ⟨hx, hxne⟩)
    · intro x hx
      rcases (mem_ids_confirm _ hne).1 hx with hx | ⟨hx, -⟩
      · exact hx
      · rw [hid] at hx
        cases hx
    · intro hview real he
      rw [hout real he]
      exact (mem_ids_confirm _ hne).2 (.inr ⟨rfl, .inr (h.pending send (List.mem_of_getElem? hi) hview hpending)⟩)

theorem step_reconciled {o : Op} (hfresh : FreshTime s o) :
    Reconciled (step s o).view (step s o).extraMessages (step s o).sends := by
  have hchange := step_change s o
  generalize step s o = s' at hchange ⊢
  cases hchange with
  | navigate view extraMessages sends =>
    rw [view, extraMessages, sends]
    exact h.navigate
  | handleSend user content now createdAt => exact h.handleSend rfl ⟨now, rfl⟩ (hfresh now rfl) rfl rfl
  | settle at_i pending start brings =>
    apply settle_reconciled h at_i pending
    intro r hr
    obtain ⟨x, -, hid⟩ := brings r hr
    exact ⟨x.messageId, hid⟩
  | onmessage k type payload => exact h.appendNew ⟨payload.messageId, rfl⟩
  | quiet start view extraMessages sends =>
    rw [view, extraMessages, sends]
    exact h

end

/-! ## Placeholders over a run -/

theorem tempIds_settle {s : St} {i : ℕ} {send : Send} (hi : s.sends[i]? = some send) (real : Option Message) :
    (s.settle i send real).sends.map Send.tempId = s.sends.map Send.tempId := by
  cases real <;> exact map_set_key hi rfl

theorem tempIds_step (s : St) (o : Op) :
    (step s o).sends.map Send.tempId = s.sends.map Send.tempId ++ (o.startedAt.map MessageId.opt).toList := by
  have hchange := step_change s o
  generalize step s o = s' at hchange ⊢
  cases hchange with
  | navigate view extraMessages sends => simp [sends, Op.startedAt]
  | handleSend user content now createdAt => simp [Op.startedAt]
  | settle at_i pending start brings => simp [tempIds_settle at_i, start]
  | onmessage k type payload => simp [Op.startedAt]
  | quiet start view extraMessages sends => simp [sends, start]

theorem tempIds_run (s : St) (ops : List Op) : (run step s ops).sends.map Send.tempId =
    s.sends.map Send.tempId ++ (ops.filterMap Op.startedAt).map MessageId.opt := by
  induction ops generalizing s with
  | nil => simp
  | cons o ops ih =>
    rw [run_cons, ih, tempIds_step, List.append_assoc]
    cases ho : o.startedAt <;> simp [ho]

/-- sends started in different milliseconds have different placeholders -/
theorem freshTime_along {channelId : String} {connect : Connect} {ops : List Op}
    (htimes : (ops.filterMap Op.startedAt).Nodup) : Along step FreshTime (start channelId connect) ops := by
  rw [along_iff_split]
  rintro a o b rfl now hnow hmem
  rw [tempIds_run, start, connectWs_sends] at hmem
  obtain ⟨now', hnow', heq⟩ := List.mem_map.1 hmem
  cases heq
  rw [List.filterMap_append, List.filterMap_cons_some hnow, List.nodup_append] at htimes
  exact htimes.2.2 now hnow' now List.mem_cons_self rfl

/-! ## One channel view -/

/-- what a later moment of a channel view has of an earlier one -/
structure Grows (t s : St) : Prop where
  view : s.view = t.view
  settled : ∀ send ∈ t.sends, send.outcome ≠ .pending → send ∈ s.sends
  /-- nothing is lost but the placeholders of settled sends -/
  kept : ∀ id ∈ ids t.extraMessages, id ∈ ids s.extraMessages ∨
    ∃ send ∈ s.sends, send.tempId = id ∧ send.outcome ≠ .pending

namespace Grows

theorem refl (s : St) : Grows s s := ⟨rfl, fun _ h _ => h, fun _ => .inl⟩

theorem trans {r t s : St} (h : Grows r t) (h' : Grows t s) : Grows r s := by
  refine ⟨h'.view.trans h.view, fun send hsend hne => h'.settled send (h.settled send hsend hne) hne, ?_⟩
  intro id hid
  rcases h.kept id hid with hid | ⟨send, hsend, htemp, hne⟩
  · exact h'.kept id hid
  · exact .inr ⟨send, h'.settled send hsend hne, htemp, hne⟩

/-- the messages only become more -/
theorem of_subset {s s' : St} (hview : s'.view = s.view) (hsends : s.sends ⊆ s'.sends)
    (hextra : ids s.extraMessages ⊆ ids s'.extraMessages) : Grows s s' :=
  ⟨hview, fun _ hsend _ => hsends hsend, fun _ hid => .inl (hextra hid)⟩

theorem settle {s : St} (h : Reconciled s.view s.extraMessages s.sends) {i : ℕ} {send : Send}
    (hi : s.sends[i]? = some send) (hpending : send.outcome = .pending) {real : Option Message}
    (hstored : ∀ r, real = some r → ∃ id, r.messageId = .stored id) : Grows s (s.settle i send real) := by
  obtain ⟨hlt, -⟩ := List.getElem?_eq_some_iff.1 hi
  have hother : ∀ {x y}, x ∈ s.sends → x.outcome ≠ .pending → x ∈ s.sends.set i y := by
    intro x y hx hne
    apply mem_set_of_ne hi hx
    rintro rfl
    exact hne hpending
  cases real with
  | none =>
    refine ⟨rfl, fun x hx hne => hother hx hne, fun id hid => ?_⟩
    by_cases hsame : id = send.tempId
    · exact .inr ⟨_, List.mem_set hlt _, hsame.symm, nofun⟩
    · exact .inl (mem_ids_dropId.2 ⟨hid, hsame⟩)
  | some r =>
    obtain ⟨u, hu⟩ := hstored r rfl
    obtain ⟨now, hnow⟩ := h.opt send (List.mem_of_getElem? hi)
    have hne : r.messageId ≠ send.tempId := by
      rw [hu, hnow]
      nofun
    refine ⟨rfl, fun x hx hne => hother hx hne, fun id hid => ?_⟩
    by_cases hsame : id = send.tempId
    · exact .inr ⟨_, List.mem_set hlt _, hsame.symm, nofun⟩
    · exact .inl ((mem_ids_confirm _ hne).2 (.inl ⟨hid, hsame⟩))

theorem step {s : St} (h : Reconciled s.view s.extraMessages s.sends) {o : Op} (hstays : Stays o) :
    Grows s (ChannelView.step s o) := by
  have hchange := step_change s o
  generalize ChannelView.step s o = s' at hchange ⊢
  cases hchange with
  | navigate view extraMessages sends => exact absurd rfl (hstays _ _)
  | handleSend user content now createdAt =>
    refine of_subset rfl ?_ ?_
    · exact fun _ => List.mem_append_left _
    · exact fun _ hid => ids_append _ _ ▸ List.mem_append_left _ hid
  | settle at_i pending start brings =>
    apply settle h at_i pending
    intro r hr
    obtain ⟨x, -, hid⟩ := brings r hr
    exact ⟨x.messageId, hid⟩
  | onmessage k type payload =>
    exact of_subset rfl (List.Subset.refl _) fun _ hid => mem_ids_appendNew.2 (.inl hid)
  | quiet start view extraMessages sends =>
    apply of_subset view
    · rw [sends]
      exact List.Subset.refl _
    · rw [extraMessages]
      exact List.Subset.refl _

end Grows

/-- **Sends are reconciled.** From any moment of a channel view, with no two sends started in one millisecond, until any
later one: no id is in the list twice; a send under way has its placeholder; a send that has succeeded has its message once
and no placeholder; one that has failed has no placeholder; nothing else is lost. -/
theorem reconciled (channelId : String) (connect : Connect) (before after : List Op) (hstays : ∀ o ∈ after, Stays o)
    (htimes : ((before ++ after).filterMap Op.startedAt).Nodup) :
    let t := run step (start channelId connect) before
    let s := run step t after
    (ids s.extraMessages).Nodup ∧
      (∀ send ∈ s.sends, send.view = s.view → send.outcome = .pending → (ids s.extraMessages).count send.tempId = 1) ∧
      (∀ send ∈ t.sends, send.view = t.view → ∀ real, send.outcome = .created real →
        (ids s.extraMessages).count real.messageId = 1 ∧ send.tempId ∉ ids s.extraMessages) ∧
      (∀ send ∈ t.sends, send.outcome = .failed → send.tempId ∉ ids s.extraMessages) ∧
      ∀ id ∈ ids t.extraMessages, id ∈ ids s.extraMessages ∨
        ∃ send ∈ s.sends, send.tempId = id ∧ send.outcome ≠ .pending := by
  intro t s
  obtain ⟨hbefore, hafter⟩ := along_append.1 (@freshTime_along channelId connect _ htimes)
  have ht : Reconciled t.view t.extraMessages t.sends := by
    apply run_inv (I := fun s => Reconciled s.view s.extraMessages s.sends) _ (Reconciled.start channelId connect) hbefore
    exact fun s o h hfresh => step_reconciled h hfresh
  obtain ⟨hs, hgrows⟩ : Reconciled s.view s.extraMessages s.sends ∧ Grows t s := by
    apply run_inv (I := fun s => Reconciled s.view s.extraMessages s.sends ∧ Grows t s) _ ⟨ht, .refl t⟩
      (along_and hafter (along_of_mem hstays))
    rintro s o ⟨h, hgrows⟩ ⟨hfresh, hstay⟩
    exact ⟨step_reconciled h hfresh, hgrows.trans (.step h hstay)⟩
  refine ⟨hs.nodup, ?_, ?_, ?_, hgrows.kept⟩
  · exact fun send hsend hview hpending => List.count_eq_one_of_mem hs.nodup (hs.pending send hsend hview hpending)
  · intro send hsend hview real hreal
    have hsettled : send.outcome ≠ .pending := by
      rw [hreal]
      nofun
    have hmem := hgrows.settled send hsend hsettled
    exact ⟨List.count_eq_one_of_mem hs.nodup (hs.created send hmem (hview.trans hgrows.view.symm) real hreal),
      hs.settled_gone hmem hsettled⟩
  · intro send hsend hfailed
    have hsettled : send.outcome ≠ .pending := by
      rw [hfailed]
      nofun
    exact hs.settled_gone (hgrows.settled send hsend hsettled) hsettled

def greeting : Stored := ⟨7, "c", "alice", "hi", "2026-01-01T00:00:00Z", none⟩

/-- the POST is answered before the echo, which comes twice -/
theorem echo_after_answer :
    let t := run step (start "c" .socket) [.onopen 0, .handleSend (some ⟨"alice", "Alice"⟩) "hi" 5 "2026-01-01T00:00:00Z",
      .answered 0 201 (some greeting)]
    let s := run step t [.onmessage 0 "new_message" greeting, .onmessage 0 "new_message" greeting]
    (ids s.extraMessages).count (.stored 7) = 1 ∧ .opt 5 ∉ ids s.extraMessages :=
  (reconciled "c" .socket _ _ (by simp [Stays]) (by decide)).2.2.1
    ⟨.opt 5, "c", "Alice", 0, .created greeting.toMessage⟩ (by decide) rfl greeting.toMessage rfl

end Concordia.Web.ChannelView
