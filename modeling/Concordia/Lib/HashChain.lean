/-
Hash chains. Each link carries a body, the hash of the link before it (a root for the first) and its own hash, which is
computed from the two. Bodies are compared by a relation `R`, what two bodies of equal hash have in common.

The hash is assumed to be free of collisions (`hinj`) and never the root (`hroot`).

- `commit`: two chains with the same last hash agree link by link, so they have the same length.
- `take_eq_of_head`: no hash occurs twice in a chain.
- `chained_take_eq`: nor in one whose hashes were computed from bodies that are no longer known.
- `goes_on`: a chain that goes on with a link of some former hash goes on where that link stood, and with what it was.
- `survivors_iff`: when links are deleted or changed but no hash is recomputed for what it now belongs to, the links that
  are left form a chain exactly when those deleted are the last ones and those kept still agree with what they were.
-/
import Mathlib.Tactic

namespace Concordia.Lib.HashChain

variable {β δ : Type*}

structure Link (β δ : Type*) where
  body : β
  prev : δ
  hash : δ

/-- each link names the hash of the one before it and carries its own -/
def HashLinked (h : β → δ → δ) : δ → List (Link β δ) → Prop
  | _, [] => True
  | p, l :: ls => l.prev = p ∧ l.hash = h l.body l.prev ∧ HashLinked h l.hash ls

/-- each link names the hash of the one before it -/
def Chained : δ → List (Link β δ) → Prop
  | _, [] => True
  | p, l :: ls => l.prev = p ∧ Chained l.hash ls

/-- the last hash -/
def head : δ → List (Link β δ) → δ
  | p, [] => p
  | _, l :: ls => head l.hash ls

@[simp] theorem head_snoc (p : δ) (ls : List (Link β δ)) (l : Link β δ) : head p (ls ++ [l]) = l.hash := by
  induction ls generalizing p with
  | nil => rfl
  | cons x ls ih => exact ih x.hash

theorem head_congr {p : δ} {A C : List (Link β δ)} (h : A.map Link.hash = C.map Link.hash) : head p A = head p C := by
  induction A generalizing p C with
  | nil =>
    rw [List.map_eq_nil_iff.1 h.symm]
  | cons a A ih =>
    cases C with
    | nil => simp at h
    | cons c C =>
      simp only [List.map_cons, List.cons.injEq] at h
      rw [head, head, h.1]
      exact ih h.2

theorem chained_snoc {p : δ} {A : List (Link β δ)} {l : Link β δ} :
    Chained p (A ++ [l]) ↔ Chained p A ∧ l.prev = head p A := by
  induction A generalizing p with
  | nil => simp [Chained, head]
  | cons a A ih => simp only [List.cons_append, Chained, head, ih, and_assoc]

/-- a chain whose hashes are those of some bodies, with these bodies put in -/
theorem exists_linked {h : β → δ → δ} {p : δ} {A : List (Link β δ)} (hA : Chained p A)
    (hhash : ∀ l ∈ A, ∃ b, l.hash = h b l.prev) :
    ∃ C : List (Link β δ), HashLinked h p C ∧ C.map Link.hash = A.map Link.hash := by
  induction A generalizing p with
  | nil => exact ⟨[], trivial, rfl⟩
  | cons a A ih =>
    obtain ⟨C, hC, hmap⟩ := ih hA.2 fun l hl => hhash l (List.mem_cons_of_mem a hl)
    obtain ⟨b, hb⟩ := hhash a List.mem_cons_self
    exact ⟨⟨b, a.prev, a.hash⟩ :: C, ⟨hA.1, hb, hC⟩, by simp [hmap]⟩

theorem linked_append {h : β → δ → δ} {p : δ} {A C : List (Link β δ)} :
    HashLinked h p (A ++ C) ↔ HashLinked h p A ∧ HashLinked h (head p A) C := by
  induction A generalizing p with
  | nil => simp [HashLinked, head]
  | cons l A ih => simp only [List.cons_append, HashLinked, head, ih, and_assoc]

theorem linked_snoc {h : β → δ → δ} {p : δ} {A : List (Link β δ)} {l : Link β δ} :
    HashLinked h p (A ++ [l]) ↔ HashLinked h p A ∧ l.prev = head p A ∧ l.hash = h l.body l.prev := by
  rw [linked_append]
  simp [HashLinked]

theorem linked_hash {h : β → δ → δ} {p : δ} {A : List (Link β δ)} (hA : HashLinked h p A) :
    ∀ l ∈ A, l.hash = h l.body l.prev := by
  induction A generalizing p with
  | nil => intro l hl; cases hl
  | cons a A ih =>
    intro l hl
    rcases List.mem_cons.1 hl with rfl | hl
    · exact hA.2.1
    · exact ih hA.2.2 l hl

/-- what two links have in common -/
def Agree (R : β → β → Prop) (a c : Link β δ) : Prop := R a.body c.body ∧ a.prev = c.prev ∧ a.hash = c.hash

/-- links that agree with a chain are a chain, if related bodies have the same hash -/
theorem linked_of_agree {h : β → δ → δ} {R : β → β → Prop} (hR : ∀ b c p, R b c → h b p = h c p) {p : δ}
    {A C : List (Link β δ)} (hAC : List.Forall₂ (Agree R) A C) (hA : HashLinked h p A) : HashLinked h p C := by
  induction hAC generalizing p with
  | nil => trivial
  | cons hac _ ih =>
    obtain ⟨hbody, hprev, hhash⟩ := hac
    obtain ⟨h1, h2, h3⟩ := hA
    refine ⟨hprev ▸ h1, ?_, hhash ▸ ih h3⟩
    rw [← hhash, h2, ← hprev, hR _ _ _ hbody]

/-! ## The last hash commits to the chain -/

section

variable {h : β → δ → δ} {root : δ} {R : β → β → Prop}

theorem head_eq_root (hroot : ∀ b p, h b p ≠ root) {A : List (Link β δ)} (hA : HashLinked h root A)
    (hhead : head root A = root) : A = [] := by
  induction A using List.reverseRecOn with
  | nil => rfl
  | append_singleton A l _ =>
    rw [linked_snoc] at hA
    rw [head_snoc, hA.2.2] at hhead
    exact absurd hhead (hroot _ _)

variable (hinj : ∀ b p c q, h b p = h c q → R b c ∧ p = q) (hroot : ∀ b p, h b p ≠ root)

include hinj hroot

/-- **Commitment.** Chains with the same last hash agree link by link. -/
theorem commit {A C : List (Link β δ)} (hA : HashLinked h root A) (hC : HashLinked h root C)
    (hhead : head root A = head root C) : List.Forall₂ (Agree R) A C := by
  -- from the last link backwards: equal hashes have equal previous hashes
  induction A using List.reverseRecOn generalizing C with
  | nil =>
    rw [head_eq_root hroot hC hhead.symm]
    exact .nil
  | append_singleton A a ih =>
    rcases List.eq_nil_or_concat' C with rfl | ⟨C, c, rfl⟩
    · exact absurd (head_eq_root hroot hA hhead) (by simp)
    rw [head_snoc, head_snoc] at hhead
    rw [linked_snoc] at hA hC
    obtain ⟨hA, haprev, hahash⟩ := hA
    obtain ⟨hC, hcprev, hchash⟩ := hC
    have heq := hhead
    rw [hahash, hchash] at heq
    obtain ⟨hbody, hprev⟩ := hinj _ _ _ _ heq
    have hrest := ih hA hC (by rw [← haprev, ← hcprev, hprev])
    exact List.rel_append hrest (.cons ⟨hbody, hprev, hhead⟩ .nil)

/-- no hash occurs twice: a hash determines how many links lead to it -/
theorem take_eq_of_head {A : List (Link β δ)} (hA : HashLinked h root A) {i j : ℕ} (hi : i ≤ A.length) (hj : j ≤ A.length)
    (hhead : head root (A.take i) = head root (A.take j)) : i = j := by
  have hinit : ∀ n, HashLinked h root (A.take n) := by
    intro n
    rw [← List.take_append_drop n A, linked_append] at hA
    exact hA.1
  have hlen := (commit hinj hroot (hinit i) (hinit j) hhead).length_eq
  rw [List.length_take_of_le hi, List.length_take_of_le hj] at hlen
  exact hlen

theorem chained_take_eq {A : List (Link β δ)} (hA : Chained root A) (hhash : ∀ l ∈ A, ∃ b, l.hash = h b l.prev)
    {i j : ℕ} (hi : i ≤ A.length) (hj : j ≤ A.length) (hhead : head root (A.take i) = head root (A.take j)) : i = j := by
  obtain ⟨C, hC, hmap⟩ := exists_linked hA hhash
  have hlen : C.length = A.length := by simpa using congrArg List.length hmap
  have htake : ∀ n, head root (C.take n) = head root (A.take n) := by
    intro n
    apply head_congr
    rw [List.map_take, List.map_take, hmap]
  exact take_eq_of_head hinj hroot hC (hlen ▸ hi) (hlen ▸ hj) (by rw [htake, htake, hhead])

/-! ## Links deleted or changed -/

/-- **Going on.** If what is left of a chain goes on with a link that still has the hash it had, that link is as it was and
none before it is missing. -/
theorem goes_on {A lost rest : List (Link β δ)} {a b : Link β δ} (hA : HashLinked h root (A ++ lost ++ a :: rest))
    (hkeep : b.hash = a.hash) (hprev : b.prev = head root A) (hhash : b.hash = h b.body b.prev) :
    lost = [] ∧ Agree R a b := by
  rw [linked_append] at hA
  obtain ⟨hbefore, haprev, hahash, -⟩ := hA
  have heq : h a.body a.prev = h b.body b.prev := by rw [← hahash, ← hhash, hkeep]
  obtain ⟨hbody, hsame⟩ := hinj _ _ _ _ heq
  -- the head after the lost links is the head before them
  have hhead : head root ((A ++ lost).take A.length) = head root ((A ++ lost).take (A ++ lost).length) := by
    rw [List.take_left, List.take_length, ← hprev, ← hsame, haprev]
  have hlen := take_eq_of_head hinj hroot hbefore (by simp) le_rfl hhead
  rw [List.length_append] at hlen
  exact ⟨List.length_eq_zero_iff.1 (by omega), hbody, hsame, hkeep.symm⟩

omit hinj hroot in
/-- if as many are left as there were, none was deleted -/
theorem all_kept {ps : List (Link β δ × Option (Link β δ))}
    (h : List.Forall₂ (Agree R) (ps.map Prod.fst) (ps.filterMap Prod.snd)) :
    ∀ x ∈ ps, ∃ b, x.2 = some b ∧ Agree R x.1 b := by
  induction ps with
  | nil => intro x hx; cases hx
  | cons y ps ih =>
    obtain ⟨a, o⟩ := y
    cases o with
    | none =>
      have hlen := h.length_eq
      have hle := List.length_filterMap_le Prod.snd ps
      simp only [List.map_cons, List.length_cons, List.length_map, List.filterMap_cons] at hlen
      omega
    | some b =>
      simp only [List.map_cons, List.filterMap_cons, List.forall₂_cons] at h
      intro x hx
      rcases List.mem_cons.1 hx with rfl | hx
      · exact ⟨b, rfl, h.1⟩
      · exact ih h.2 x hx

/-- what is left of a chain, no hash having been recomputed, is a chain only if a tail was cut off -/
theorem tail_of_survivors {ps : List (Link β δ × Option (Link β δ))} (hA : HashLinked h root (ps.map Prod.fst))
    (hhash : ∀ x ∈ ps, ∀ b, x.2 = some b → b.hash = x.1.hash) (hC : HashLinked h root (ps.filterMap Prod.snd)) :
    ∃ kept lost, ps = kept ++ lost ∧ (∀ x ∈ kept, ∃ b, x.2 = some b ∧ Agree R x.1 b) ∧ ∀ x ∈ lost, x.2 = none := by
  induction ps using List.reverseRecOn with
  | nil => exact ⟨[], [], rfl, by simp, by simp⟩
  | append_singleton ps x ih =>
    obtain ⟨a, o⟩ := x
    rw [List.map_append, List.map_singleton, linked_snoc] at hA
    cases o with
    | none =>
      have hfilter : (ps ++ [(a, none)]).filterMap Prod.snd = ps.filterMap Prod.snd := by simp
      rw [hfilter] at hC
      obtain ⟨kept, lost, rfl, hkept, hlost⟩ := ih hA.1 (fun x hx => hhash x (by simp [hx])) hC
      refine ⟨kept, lost ++ [(a, none)], by simp, hkept, ?_⟩
      intro x hx
      rcases List.mem_append.1 hx with hx | hx
      · exact hlost x hx
      · rw [List.mem_singleton.1 hx]
    | some b =>
      -- the last link is left: its hash commits to all before it
      have hb : b.hash = a.hash := hhash (a, some b) (by simp) b rfl
      have hfilter : (ps ++ [(a, some b)]).filterMap Prod.snd = ps.filterMap Prod.snd ++ [b] := by simp
      have hmap : (ps ++ [(a, some b)]).map Prod.fst = ps.map Prod.fst ++ [a] := by simp
      have hagree : List.Forall₂ (Agree R) ((ps ++ [(a, some b)]).map Prod.fst)
          ((ps ++ [(a, some b)]).filterMap Prod.snd) := by
        rw [hfilter] at hC ⊢
        rw [hmap]
        exact commit hinj hroot (linked_snoc.2 hA) hC (by rw [head_snoc, head_snoc, hb])
      exact ⟨ps ++ [(a, some b)], [], by simp, all_kept hagree, by simp⟩

omit hinj hroot in
theorem filterMap_kept {kept lost : List (Link β δ × Option (Link β δ))} (hlost : ∀ x ∈ lost, x.2 = none) :
    (kept ++ lost).filterMap Prod.snd = kept.filterMap Prod.snd := by
  rw [List.filterMap_append, List.filterMap_eq_nil_iff.2 hlost, List.append_nil]

omit hinj hroot in
theorem forall₂_kept {kept : List (Link β δ × Option (Link β δ))}
    (h : ∀ x ∈ kept, ∃ b, x.2 = some b ∧ Agree R x.1 b) :
    List.Forall₂ (Agree R) (kept.map Prod.fst) (kept.filterMap Prod.snd) := by
  induction kept with
  | nil => exact .nil
  | cons y ps ih =>
    obtain ⟨a, o⟩ := y
    obtain ⟨b, rfl, hab⟩ := h (a, o) (by simp)
    exact .cons hab (ih fun x hx => h x (by simp [hx]))

/-- **Survivors.** With no hash recomputed, what is left of a chain is a chain exactly when a tail was cut off and the
rest agrees with what it was. -/
theorem survivors_iff (hR : ∀ b c p, R b c → h b p = h c p) {ps : List (Link β δ × Option (Link β δ))}
    (hA : HashLinked h root (ps.map Prod.fst))
    (hhash : ∀ x ∈ ps, ∀ b, x.2 = some b → b.hash = x.1.hash ∨ b.hash ≠ h b.body b.prev) :
    HashLinked h root (ps.filterMap Prod.snd) ↔
      ∃ kept lost, ps = kept ++ lost ∧ (∀ x ∈ kept, ∃ b, x.2 = some b ∧ Agree R x.1 b) ∧ ∀ x ∈ lost, x.2 = none := by
  refine ⟨?_, ?_⟩
  · intro hC
    refine tail_of_survivors hinj hroot hA ?_ hC
    intro x hx b hb
    rcases hhash x hx b hb with heq | hne
    · exact heq
    · exact absurd (linked_hash hC b (List.mem_filterMap.2 ⟨x, hx, hb⟩)) hne
  · intro ⟨kept, lost, hps, hkept, hlost⟩
    rw [hps, List.map_append, linked_append] at hA
    rw [hps, filterMap_kept hlost]
    exact linked_of_agree hR (forall₂_kept hkept) hA.1

end

end Concordia.Lib.HashChain
