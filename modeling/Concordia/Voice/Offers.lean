/-
One offer for each pair of clients on a voice channel.

- `Room`: how far the clients have come, against the channel's sorted set and registry. Of two clients that have listed the
  participants, one has listed the other (`Room.either`).
- `Sending`, `Arrived`: each client sends one offer to each user it has listed, and what is put on a socket is handled once.
- `History`: what is known of an offer that the server has received.
- `one_offer_iff`: when both have settled, exactly one offer between two clients has been handled exactly if the first that
  the server received was in time. Who offers is decided by two lists of participants, which the clients' joins may both
  precede, and an offer to a client whose socket is not yet accepted is dropped.
-/
import Concordia.Voice.Calls

namespace Concordia.Voice.Calls

open Concordia.Lib

/-! ## How far the clients have come -/

structure Room (c : String) (members : Dict String ℕ) (active : Registry String) (p : String → Progress) : Prop where
  members : ∀ a, (members.get a).isSome = (p a).joined
  listed : ∀ a, (p a).existingUserIds.isSome = true → (p a).joined = true
  connected : ∀ a, (p a).connected = true → (p a).existingUserIds.isSome = true
  opened : ∀ a, (p a).opened = true → (p a).connected = true
  named : ∀ a, (p a).joined = true → a ≠ ""
  registered : ∀ a, active.peer c a = if (p a).connected then some a else none
  existing : ∀ a ids, (p a).existingUserIds = some ids → ids.Nodup ∧ ∀ b ∈ ids, b ≠ a ∧ (p b).joined = true
  either : ∀ a b as bs, a ≠ b → (p a).existingUserIds = some as → (p b).existingUserIds = some bs → a ∈ bs ∨ b ∈ as

theorem room_start (c : String) : Room c Dict.empty Dict.empty fun _ => ⟨false, none, false, false⟩ :=
  ⟨fun _ => rfl, fun _ h => h, nofun, fun _ h => h, nofun, fun _ => rfl, nofun, nofun⟩

section Room

variable {c : String} {members : Dict String ℕ} {active : Registry String} {p : String → Progress} {u : String}

/-- a property of every client after the progress of one has changed -/
theorem forall_update {P : String → Progress → Prop} {x : Progress} (hself : P u x) (hother : ∀ a, P a (p a)) (a : String) :
    P a (Function.update p u x a) :=
  (Function.forall_update_iff p P).2 ⟨hself, fun a _ => hother a⟩ a

/-- what the change keeps of the one, it keeps of every client -/
theorem read_update {β : Type*} {f : Progress → β} {x : Progress} (h : f x = f (p u)) (a : String) :
    f (Function.update p u x a) = f (p a) :=
  forall_update (P := fun a q => f q = f (p a)) h (fun _ => rfl) a

theorem Room.join (h : Room c members active p) (hu : u ≠ "") (now : ℕ) :
    Room c (members.set u now) active (Function.update p u { p u with joined := true }) := by
  have hids : ∀ a, (Function.update p u { p u with joined := true } a).existingUserIds = (p a).existingUserIds :=
    read_update (f := Progress.existingUserIds) rfl
  have hmono : ∀ a, (p a).joined = true → (Function.update p u { p u with joined := true } a).joined = true :=
    forall_update (P := fun a q => (p a).joined = true → q.joined = true) (fun _ => rfl) fun _ => id
  refine ⟨?_, ?_, ?_, ?_, ?_, ?_, ?_, ?_⟩
  · refine (Function.forall_update_iff p fun a q => ((members.set u now).get a).isSome = q.joined).2 ⟨by simp, ?_⟩
    intro a ha
    rw [Dict.get_set_of_ne ha]
    exact h.members a
  · intro a
    rw [hids]
    exact fun hsome => hmono a (h.listed a hsome)
  · exact forall_update (P := fun _ q => q.connected = true → q.existingUserIds.isSome = true) (h.connected u) h.connected
  · exact forall_update (P := fun _ q => q.opened = true → q.connected = true) (h.opened u) h.opened
  · exact forall_update (P := fun a q => q.joined = true → a ≠ "") (fun _ => hu) h.named
  · exact forall_update (P := fun a q => active.peer c a = if q.connected then some a else none) (h.registered u)
      h.registered
  · intro a ids
    rw [hids]
    intro hsome
    obtain ⟨hnodup, hall⟩ := h.existing a ids hsome
    exact ⟨hnodup, fun b hb => ⟨(hall b hb).1, hmono b (hall b hb).2⟩⟩
  · intro a b as bs
    rw [hids, hids]
    exact h.either a b as bs

/-- the others of the list of participants are those who have joined -/
theorem Room.mem_list (h : Room c members active p) {b : String} :
    b ∈ ((byScore members).map Prod.fst).filter (· ≠ u) ↔ b ≠ u ∧ (p b).joined = true := by
  rw [List.mem_filter, List.mem_map, ← h.members b, Option.isSome_iff_exists]
  unfold byScore
  refine ⟨?_, ?_⟩
  · rintro ⟨⟨q, hq, rfl⟩, hne⟩
    exact ⟨by simpa using hne, q.2, Dict.mem_items.1 ((List.mem_insertionSort _).1 hq)⟩
  · rintro ⟨hne, t, ht⟩
    exact ⟨⟨(b, t), (List.mem_insertionSort _).2 (Dict.mem_items.2 ht), rfl⟩, by simpa using hne⟩

theorem nodup_list (members : Dict String ℕ) (u : String) : (((byScore members).map Prod.fst).filter (· ≠ u)).Nodup := by
  refine List.Nodup.filter _ ?_
  unfold byScore
  exact ((List.perm_insertionSort _ _).map Prod.fst).nodup_iff.2 members.nodup

theorem Room.list (h : Room c members active p) (hj : (p u).joined = true) (hids : (p u).existingUserIds = none) :
    Room c members active (Function.update p u
      { p u with existingUserIds := some (((byScore members).map Prod.fst).filter (· ≠ u)) }) := by
  have hjoined : ∀ a, (Function.update p u { p u with
      existingUserIds := some (((byScore members).map Prod.fst).filter (· ≠ u)) } a).joined = (p a).joined :=
    read_update (f := Progress.joined) rfl
  have hconn : (p u).connected = false := by
    by_contra hconn
    have hsome := h.connected u (by simpa using hconn)
    rw [hids] at hsome
    cases hsome
  refine ⟨?_, ?_, ?_, ?_, ?_, ?_, ?_, ?_⟩
  · exact fun a => (h.members a).trans (hjoined a).symm
  · exact forall_update (P := fun _ q => q.existingUserIds.isSome = true → q.joined = true) (fun _ => hj) h.listed
  · exact forall_update (P := fun _ q => q.connected = true → q.existingUserIds.isSome = true) (fun _ => rfl) h.connected
  · exact forall_update (P := fun _ q => q.opened = true → q.connected = true) (h.opened u) h.opened
  · intro a
    rw [hjoined]
    exact h.named a
  · exact forall_update (P := fun a q => active.peer c a = if q.connected then some a else none) (h.registered u)
      h.registered
  · simp only [hjoined]
    refine forall_update (P := fun a q => ∀ ids, q.existingUserIds = some ids →
      ids.Nodup ∧ ∀ b ∈ ids, b ≠ a ∧ (p b).joined = true) ?_ h.existing
    rintro ids ⟨⟩
    exact ⟨nodup_list members u, fun b hb => h.mem_list.1 hb⟩
  · -- who lists now has everybody in its list who has listed before
    have hall : ∀ a as, a ≠ u → (p a).existingUserIds = some as →
        a ∈ ((byScore members).map Prod.fst).filter (· ≠ u) := fun a as hne hsome =>
      h.mem_list.2 ⟨hne, h.listed a (by rw [hsome]; rfl)⟩
    intro a b as bs hab
    by_cases ha : a = u
    · rw [ha, Function.update_self, Function.update_of_ne (ha ▸ hab.symm)]
      rintro ⟨⟩ hbs
      exact Or.inr (hall b bs (ha ▸ hab.symm) hbs)
    · rw [Function.update_of_ne ha]
      by_cases hb : b = u
      · rw [hb, Function.update_self]
        rintro has ⟨⟩
        exact Or.inl (hall a as ha has)
      · rw [Function.update_of_ne hb]
        exact h.either a b as bs hab

/-- a client that is accepted or opens changes neither who has joined nor the lists -/
theorem Room.move (h : Room c members active p) {active' : Registry String} {x : Progress} (hj : x.joined = (p u).joined)
    (hids : x.existingUserIds = (p u).existingUserIds) (hsome : x.connected = true → (p u).existingUserIds.isSome = true)
    (hopened : x.opened = true → x.connected = true) (hself : active'.peer c u = if x.connected then some u else none)
    (hother : ∀ a, a ≠ u → active'.peer c a = active.peer c a) :
    Room c members active' (Function.update p u x) := by
  have hjoined' : ∀ a, (Function.update p u x a).joined = (p a).joined :=
    read_update (f := Progress.joined) hj
  have hids' : ∀ a, (Function.update p u x a).existingUserIds = (p a).existingUserIds :=
    read_update (f := Progress.existingUserIds) hids
  refine ⟨fun a => (h.members a).trans (hjoined' a).symm, ?_, ?_, ?_, ?_, ?_, ?_, ?_⟩
  · intro a
    rw [hids', hjoined']
    exact h.listed a
  · exact forall_update (P := fun _ q => q.connected = true → q.existingUserIds.isSome = true) (hids ▸ hsome) h.connected
  · exact forall_update (P := fun _ q => q.opened = true → q.connected = true) hopened h.opened
  · intro a
    rw [hjoined']
    exact h.named a
  · refine (Function.forall_update_iff p fun a q => active'.peer c a = if q.connected then some a else none).2 ⟨hself, ?_⟩
    intro a ha
    rw [hother a ha]
    exact h.registered a
  · simp only [hids', hjoined']
    exact h.existing
  · simp only [hids']
    exact h.either

end Room

/-! ## Messages -/

/-- what a client sends -/
def Posted (message : Value) : Prop := ∃ type v k w, k ∈ ["sdp", "candidate"] ∧
  message = .obj [("type", .str type), ("target_user_id", .str v), (k, w)]

theorem posted_offer (v sdp : String) : Posted (offer v sdp) := ⟨"offer", v, "sdp", .str sdp, by decide, rfl⟩

theorem posted_answer (v sdp : String) : Posted (answer v sdp) := ⟨"answer", v, "sdp", .str sdp, by decide, rfl⟩

theorem posted_candidate (v : String) (candidate : Value) : Posted (iceCandidate v candidate) :=
  ⟨"ice-candidate", v, "candidate", candidate, by decide, rfl⟩

/-- the message as it is relayed -/
def stamped (type v k : String) (w : Value) (u : String) : Value :=
  .obj [("type", .str type), ("target_user_id", .str v), (k, w), ("sender_user_id", .str u)]

theorem relay_posted {r : Registry String} {c u type v k : String} {w : Value} (hk : k ∈ ["sdp", "candidate"]) :
    (relay r c u u (.json (.obj [("type", .str type), ("target_user_id", .str v), (k, w)])) .ok).2 =
      if v = "" then [] else
        match r.peer c v with
        | some ws => [⟨v, ws, some u, stamped type v k w u⟩]
        | none => [⟨u, u, none, peerNotConnected⟩] := by
  have hset : setItem "sender_user_id" (.str u) [("type", .str type), ("target_user_id", .str v), (k, w)] =
      [("type", Json.str type), ("target_user_id", .str v), (k, w), ("sender_user_id", .str u)] := by
    refine if_neg ?_
    simp only [List.mem_cons, List.not_mem_nil, or_false] at hk
    rcases hk with rfl | rfl <;> simp
  have hget : getItem "target_user_id" [("type", Json.str type), ("target_user_id", .str v), (k, w)] =
      some (Json.str v : Value) := rfl
  unfold relay
  simp only [hget, hset, Option.getD_some]
  by_cases hv : v = ""
  · rw [if_pos hv, if_neg (by simp [truthy, hv])]
  · rw [if_neg hv, if_pos (by simp [truthy, hv])]
    cases hpeer : r.peer c v with
    | none => simp [Registry.sendToPeer, hashable, hpeer, sendJson]
    | some ws => simp [Registry.sendToPeer, hashable, hpeer, sendJson, stamped]

theorem text_type_posted (type v k : String) (w : Value) :
    text "type" (.obj [("type", .str type), ("target_user_id", .str v), (k, w)]) = some type := rfl

theorem text_target_posted (type v k : String) (w : Value) :
    text "target_user_id" (.obj [("type", .str type), ("target_user_id", .str v), (k, w)]) = some v := rfl

theorem isOfferTo_posted (type v k b : String) (w : Value) :
    isOfferTo b (.obj [("type", .str type), ("target_user_id", .str v), (k, w)]) =
      (decide (type = "offer") && decide (v = b)) := by
  unfold isOfferTo
  rw [text_type_posted, text_target_posted]
  simp

theorem isOfferTo_offer (v sdp b : String) : isOfferTo b (offer v sdp) = decide (v = b) := by
  unfold offer
  rw [isOfferTo_posted]
  simp

theorem isOfferFrom_stamped {type v k : String} {w : Value} (hk : k ∈ ["sdp", "candidate"]) (u a : String) :
    isOfferFrom a (stamped type v k w u) = (decide (type = "offer") && decide (u = a)) := by
  simp only [List.mem_cons, List.not_mem_nil, or_false] at hk
  rcases hk with rfl | rfl <;> simp [isOfferFrom, stamped, text, getItem]

theorem not_offer_from {message : Value} (h : text "type" message ≠ some "offer") (a : String) :
    isOfferFrom a message = false := by
  simp [isOfferFrom, h]

/-! ## The invariant -/

/-- the client has opened its socket, and sends the user an offer -/
def Progress.offersTo (p : Progress) (b : String) : Bool := p.opened && (p.existingUserIds.getD []).contains b

def Relayed.is (a b : String) (e : Relayed) : Bool := e.offerer = a && e.target = b

/-- the message is an offer from `a` that `b` has handled -/
def handled (a b : String) (d : String × Value) : Bool := d.1 = b && isOfferFrom a d.2

def St.progress (s : St) (a : String) : Progress := (s.client a).progress

structure Sending (s : St) : Prop where
  posted : ∀ a, ∀ message ∈ s.frames a, Posted message
  /-- an offer is yet to be sent, on its way, or received -/
  once : ∀ a b, (s.client a).offering.count b + (s.frames a).countP (isOfferTo b) + s.relayed.countP (Relayed.is a b) =
    if (s.progress a).offersTo b then 1 else 0

/-- what was put on a socket is yet to be handled or has been -/
def Arrived (s : St) : Prop := ∀ a b, s.relayed.countP (fun e => e.put && e.is a b) =
  (s.inbox b).countP (isOfferFrom a) + s.delivered.countP (handled a b)

structure History (s : St) : Prop where
  opened : ∀ e ∈ s.relayed, (s.progress e.offerer).opened = true
  distinct : ∀ e ∈ s.relayed, e.offerer ≠ e.target
  /-- a later list has the offerer, who has joined -/
  lacked : ∀ e ∈ s.relayed, (s.client e.target).lacks e.offerer = e.lacked
  /-- who has offered has a socket -/
  late : ∀ before e after, s.relayed = before ++ e :: after → (∃ x ∈ before, x.is e.target e.offerer = true) → e.put = true

structure Inv (c : String) (s : St) : Prop where
  room : Room c s.members s.active s.progress
  sending : Sending s
  arrived : Arrived s
  history : History s

theorem inv_start (c : String) : Inv c start :=
  ⟨room_start c, ⟨nofun, fun _ _ => rfl⟩, fun _ _ => rfl, nofun, nofun, nofun, fun before _ _ h => by cases before <;> cases h⟩

section Step

variable {c : String} {s s' : St} {u : String}

theorem client_setClient_self (s : St) (u : String) (client : Client) : (s.setClient u client).client u = client :=
  Function.update_self _ _ _

theorem client_setClient_of_ne {client : Client} {a : String} (ha : a ≠ u) :
    (s.setClient u client).client a = s.client a := Function.update_of_ne ha _ _

theorem progress_setClient (s : St) (u : String) (client : Client) :
    (s.setClient u client).progress = Function.update s.progress u client.progress := by
  funext a
  unfold St.progress
  by_cases ha : a = u
  · rw [ha, client_setClient_self, Function.update_self]
  · rw [client_setClient_of_ne ha, Function.update_of_ne ha]

theorem progress_setClient_of_eq {client : Client} (h : client.progress = s.progress u) :
    (s.setClient u client).progress = s.progress := by
  rw [progress_setClient, h, Function.update_eq_self]

theorem Sending.congr (h : Sending s) (hframes : s'.frames = s.frames) (hrelayed : s'.relayed = s.relayed)
    (hoffering : ∀ a, (s'.client a).offering = (s.client a).offering)
    (hoffers : ∀ a b, (s'.progress a).offersTo b = (s.progress a).offersTo b) : Sending s' := by
  refine ⟨?_, ?_⟩
  · rw [hframes]
    exact h.posted
  · intro a b
    rw [hframes, hrelayed, hoffering, hoffers]
    exact h.once a b

theorem Arrived.put (h : Arrived s) {sent : List (Sent String)} (hsent : ∀ x ∈ sent, text "type" x.message ≠ some "offer") :
    Arrived (s.put sent) := by
  intro a b
  have hnone : ((sent.filter fun x => x.socket = b).map Sent.message).countP (isOfferFrom a) = 0 := by
    rw [List.countP_eq_zero]
    intro message hmem
    obtain ⟨x, hx, rfl⟩ := List.mem_map.1 hmem
    rw [not_offer_from (hsent x (List.mem_filter.1 hx).1)]
    exact Bool.false_ne_true
  unfold St.put
  rw [List.countP_append, hnone, Nat.add_zero]
  exact h a b

theorem History.congr (h : History s) (hrelayed : s'.relayed = s.relayed)
    (hopened : ∀ a, (s.progress a).opened = true → (s'.progress a).opened = true)
    (hlacks : ∀ e ∈ s.relayed, (s'.client e.target).lacks e.offerer = (s.client e.target).lacks e.offerer) :
    History s' := by
  refine ⟨?_, ?_, ?_, ?_⟩
  · rw [hrelayed]
    exact fun e he => hopened _ (h.opened e he)
  · rw [hrelayed]
    exact h.distinct
  · rw [hrelayed]
    exact fun e he => (hlacks e he).trans (h.lacked e he)
  · rw [hrelayed]
    exact h.late

/-- the offering of a client whose list and queue stay as they are -/
theorem offering_setClient {client : Client} (h : client.offering = (s.client u).offering) (a : String) :
    ((s.setClient u client).client a).offering = (s.client a).offering := by
  by_cases ha : a = u
  · rw [ha, client_setClient_self, h]
  · rw [client_setClient_of_ne ha]

/-- a client that neither opens its socket nor changes its list offers to whom it did, and lacks whom it did -/
theorem Inv.advance (h : Inv c s) {members : Dict String ℕ} {active : Registry String} {client : Client}
    (hroom : Room c members active (Function.update s.progress u client.progress))
    (hopened : client.progress.opened = (s.progress u).opened)
    (hids : client.progress.existingUserIds = (s.progress u).existingUserIds)
    (hoffering : client.offering = (s.client u).offering) :
    Inv c (({ s with members := members, active := active } : St).setClient u client) := by
  have hprogress := progress_setClient { s with members := members, active := active } u client
  have hoffers : ∀ a b, ((({ s with members := members, active := active } : St).setClient u client).progress a).offersTo b =
      (s.progress a).offersTo b := by
    intro a b
    rw [hprogress]
    exact read_update (f := fun q => q.offersTo b) (by unfold Progress.offersTo; rw [hopened, hids]; rfl) a
  refine ⟨?_, h.sending.congr rfl rfl (offering_setClient hoffering) hoffers, h.arrived, h.history.congr rfl ?_ ?_⟩
  · rw [hprogress]
    exact hroom
  · rw [hprogress]
    exact forall_update (P := fun a q => (s.progress a).opened = true → q.opened = true)
      (fun ho => hopened.trans ho) fun _ => id
  · intro e _
    by_cases he : e.target = u
    · rw [he, client_setClient_self]
      unfold Client.lacks
      rw [hids]
      rfl
    · rw [client_setClient_of_ne he]

theorem Inv.put (h : Inv c s) {sent : List (Sent String)} (hsent : ∀ x ∈ sent, text "type" x.message ≠ some "offer") :
    Inv c (s.put sent) :=
  ⟨h.room, h.sending.congr rfl rfl (fun _ => rfl) fun _ _ => rfl, h.arrived.put hsent,
    h.history.congr rfl (fun _ ho => ho) fun _ _ => rfl⟩

/-- a client changes whom it answers and whom it is connected with -/
theorem Inv.setClient (h : Inv c s) {client : Client} (hprogress : client.progress = s.progress u)
    (hoffering : client.offering = (s.client u).offering) : Inv c (s.setClient u client) :=
  h.advance (by rw [hprogress, Function.update_eq_self]; exact h.room) (by rw [hprogress]) (by rw [hprogress]) hoffering

theorem post_frames (s : St) (u : String) (message : Value) (a : String) :
    (s.post u message).frames a = if a = u then s.frames u ++ [message] else s.frames a := by
  unfold St.post
  by_cases ha : a = u
  · simp [ha]
  · simp [ha]

theorem posted_post (h : ∀ a, ∀ x ∈ s.frames a, Posted x) {message : Value} (hposted : Posted message) (a : String) :
    ∀ x ∈ (s.post u message).frames a, Posted x := by
  intro x hx
  rw [post_frames] at hx
  split_ifs at hx
  · rcases mem_snoc.1 hx with hx | rfl
    · exact h u x hx
    · exact hposted
  · exact h a x hx

/-- a client sends something that is no offer -/
theorem Inv.post (h : Inv c s) {message : Value} (hposted : Posted message) (htype : text "type" message ≠ some "offer") :
    Inv c (s.post u message) := by
  refine ⟨h.room, ⟨posted_post h.sending.posted hposted, ?_⟩, h.arrived, h.history.congr rfl (fun _ ho => ho) fun _ _ => rfl⟩
  intro a b
  have hframes : ((s.post u message).frames a).countP (isOfferTo b) = (s.frames a).countP (isOfferTo b) := by
    rw [post_frames]
    split_ifs with ha
    · rw [ha, List.countP_append]
      simp [isOfferTo, htype]
    · rfl
  rw [hframes]
  exact h.sending.once a b

/-- the state after a client has sent an offer that was pending -/
def St.offered (s : St) (u v sdp : String) : St :=
  (s.setClient u { s.client u with offering := (s.client u).offering.erase v }).post u (Calls.offer v sdp)

theorem offered_progress (s : St) (u v sdp : String) : (s.offered u v sdp).progress = s.progress :=
  progress_setClient_of_eq rfl

theorem offered_client_self (s : St) (u v sdp : String) : (s.offered u v sdp).client u =
    { s.client u with offering := (s.client u).offering.erase v } := client_setClient_self _ _ _

theorem offered_client_of_ne {v sdp a : String} (ha : a ≠ u) : (s.offered u v sdp).client a = s.client a :=
  client_setClient_of_ne ha

/-- the offer moves from the pending ones to those on their way -/
theorem offered_once {v : String} (hv : v ∈ (s.client u).offering) (sdp a b : String) :
    ((s.offered u v sdp).client a).offering.count b + ((s.offered u v sdp).frames a).countP (isOfferTo b) =
      (s.client a).offering.count b + (s.frames a).countP (isOfferTo b) := by
  have hframes : (s.offered u v sdp).frames a = if a = u then s.frames u ++ [Calls.offer v sdp] else s.frames a :=
    post_frames _ _ _ _
  rw [hframes]
  by_cases ha : a = u
  · subst ha
    rw [offered_client_self, if_pos rfl, List.countP_append, List.countP_singleton, isOfferTo_offer]
    by_cases hb : v = b
    · subst hb
      have hpos : 0 < (s.client a).offering.count v := List.count_pos_iff.2 hv
      rw [List.count_erase_self, decide_eq_true rfl, if_pos rfl]
      omega
    · rw [List.count_erase_of_ne (Ne.symm hb), decide_eq_false hb, if_neg Bool.false_ne_true, Nat.add_zero]
  · rw [offered_client_of_ne ha, if_neg ha]

/-- a client sends an offer that was pending -/
theorem Inv.offer (h : Inv c s) {v : String} (hv : v ∈ (s.client u).offering) (sdp : String) :
    Inv c (s.offered u v sdp) := by
  refine ⟨?_, ⟨posted_post h.sending.posted (posted_offer v sdp), ?_⟩, h.arrived, h.history.congr rfl ?_ ?_⟩
  · rw [offered_progress]
    exact h.room
  · intro a b
    rw [offered_progress, offered_once hv]
    exact h.sending.once a b
  · rw [offered_progress]
    exact fun _ ho => ho
  · intro e _
    by_cases he : e.target = u
    · rw [he, offered_client_self]
      rfl
    · rw [offered_client_of_ne he]

/-- an offerer has joined -/
theorem Inv.offerer_joined (h : Inv c s) {e : Relayed} (he : e ∈ s.relayed) : (s.progress e.offerer).joined = true :=
  h.room.listed _ (h.room.connected _ (h.room.opened _ (h.history.opened e he)))

/-- a client lists the participants, and finds who has offered among them -/
theorem Inv.list (h : Inv c s) (hj : (s.progress u).joined = true) (hnone : (s.progress u).existingUserIds = none)
    {client : Client} (hprogress : client.progress = { s.progress u with
      existingUserIds := some (((byScore s.members).map Prod.fst).filter (· ≠ u)) })
    (hoffering : client.offering = (s.client u).offering) : Inv c (s.setClient u client) := by
  have hopened : (s.progress u).opened = false := by
    by_contra ho
    have hsome := h.room.connected u (h.room.opened u (by simpa using ho))
    rw [hnone] at hsome
    cases hsome
  have hup := progress_setClient s u client
  rw [hprogress] at hup
  refine ⟨?_, h.sending.congr rfl rfl (offering_setClient hoffering) ?_, h.arrived, h.history.congr rfl ?_ ?_⟩
  · rw [hup]
    exact h.room.list hj hnone
  · intro a b
    rw [hup]
    exact read_update (f := fun q => q.offersTo b) (by unfold Progress.offersTo; rw [hopened]; rfl) a
  · rw [hup]
    exact forall_update (P := fun a q => (s.progress a).opened = true → q.opened = true) id fun _ => id
  · intro e he
    by_cases htarget : e.target = u
    · have hmem : e.offerer ∈ ((byScore s.members).map Prod.fst).filter (· ≠ u) :=
        h.room.mem_list.2 ⟨htarget ▸ h.history.distinct e he, h.offerer_joined he⟩
      have hbefore : (s.client u).progress.existingUserIds = none := hnone
      rw [htarget, client_setClient_self]
      unfold Client.lacks
      rw [hprogress, hbefore]
      simpa using hmem
    · rw [client_setClient_of_ne htarget]

/-- a client opens its socket, with an offer pending for each user it has listed -/
theorem Inv.onopen (h : Inv c s) (hconn : (s.progress u).connected = true) (hclosed : (s.progress u).opened = false)
    {client : Client} (hprogress : client.progress = { s.progress u with opened := true })
    (hoffering : client.offering = (s.progress u).existingUserIds.getD []) : Inv c (s.setClient u client) := by
  obtain ⟨ids, hids⟩ := Option.isSome_iff_exists.1 (h.room.connected u hconn)
  have hup := progress_setClient s u client
  rw [hprogress] at hup
  refine ⟨?_, ⟨h.sending.posted, ?_⟩, h.arrived, h.history.congr rfl ?_ ?_⟩
  · rw [hup]
    exact h.room.move rfl rfl (h.room.connected u) (fun _ => hconn) (h.room.registered u) fun _ _ => rfl
  · intro a b
    have honce := h.sending.once a b
    by_cases ha : a = u
    · subst ha
      rw [client_setClient_self, hup, Function.update_self, hoffering, hids, Option.getD_some]
      show ids.count b + (s.frames a).countP (isOfferTo b) + s.relayed.countP (Relayed.is a b) = _
      -- nothing was pending or sent before
      rw [show (s.progress a).offersTo b = false by unfold Progress.offersTo; rw [hclosed]; rfl] at honce
      rw [(h.room.existing a ids hids).1.count]
      simp only [Progress.offersTo, hids, Option.getD_some, Bool.true_and, List.contains_iff_mem]
      simp only [Bool.false_eq_true, if_false] at honce
      omega
    · rw [client_setClient_of_ne ha, hup, Function.update_of_ne ha]
      exact honce
  · rw [hup]
    exact forall_update (P := fun a q => (s.progress a).opened = true → q.opened = true) (fun _ => rfl) fun _ => id
  · intro e _
    by_cases htarget : e.target = u
    · rw [htarget, client_setClient_self]
      unfold Client.lacks
      rw [hprogress]
      rfl
    · rw [client_setClient_of_ne htarget]

theorem handleMessage_keeps (client : Client) (message : Value) :
    (handleMessage client message).progress = client.progress ∧
      (handleMessage client message).offering = client.offering := by
  unfold handleMessage
  split
  · exact ⟨rfl, rfl⟩
  · split
    · split_ifs
      · exact ⟨rfl, rfl⟩
      · exact ⟨rfl, rfl⟩
    · exact ⟨rfl, rfl⟩
  · split
    · split_ifs
      · exact ⟨rfl, rfl⟩
      · exact ⟨rfl, rfl⟩
    · exact ⟨rfl, rfl⟩

/-- the state after a client has taken a message from its inbox -/
def St.taken (s : St) (u : String) (message : Value) (inbox : List Value) : St := { s with
  inbox := Function.update s.inbox u inbox
  delivered := s.delivered ++ [(u, message)] }

theorem Arrived.taken (h : Arrived s) {message : Value} {inbox : List Value} (hinbox : s.inbox u = message :: inbox) :
    Arrived (s.taken u message inbox) := by
  intro a b
  have hold := h a b
  show s.relayed.countP (fun e => e.put && e.is a b) = (Function.update s.inbox u inbox b).countP (isOfferFrom a) +
    (s.delivered ++ [(u, message)]).countP (handled a b)
  rw [List.countP_append, List.countP_singleton]
  by_cases hb : b = u
  · subst hb
    have hhandled : handled a b (b, message) = isOfferFrom a message := by simp [handled]
    rw [hold, hinbox, Function.update_self, List.countP_cons, hhandled]
    omega
  · have hhandled : handled a b (u, message) = false := by simp [handled, Ne.symm hb]
    rw [Function.update_of_ne hb, hhandled, hold]
    simp

/-- a client handles the first message of its inbox -/
theorem Inv.deliver (h : Inv c s) {message : Value} {inbox : List Value} (hinbox : s.inbox u = message :: inbox) :
    Inv c ((s.taken u message inbox).setClient u (handleMessage (s.client u) message)) := by
  obtain ⟨hprogress, hoffering⟩ := handleMessage_keeps (s.client u) message
  have htaken : Inv c (s.taken u message inbox) :=
    ⟨h.room, h.sending.congr rfl rfl (fun _ => rfl) fun _ _ => rfl, h.arrived.taken hinbox,
      h.history.congr rfl (fun _ ho => ho) fun _ _ => rfl⟩
  exact htaken.setClient hprogress hoffering

/-- the state after the server has received a frame, but for what it sends -/
def St.received (s : St) (c u : String) (message : Value) (frames : List Value) : St := { s with
  frames := Function.update s.frames u frames
  relayed := s.relayed ++ s.receive c u message }

theorem receive_posted (s : St) (c u type v k : String) (w : Value) :
    s.receive c u (.obj [("type", .str type), ("target_user_id", .str v), (k, w)]) =
      if type = "offer" then [⟨u, v, (s.active.peer c v).isSome, (s.client v).lacks u⟩] else [] := by
  unfold St.receive
  rw [text_type_posted, text_target_posted]
  simp

/-- an offer on its way is to a user that its sender has listed -/
theorem Inv.offersTo (h : Inv c s) {message : Value} (hmem : message ∈ s.frames u) {v : String}
    (hoffer : isOfferTo v message = true) : (s.progress u).opened = true ∧ v ≠ u ∧ (s.progress v).joined = true := by
  have honce := h.sending.once u v
  have hpos : 0 < (s.frames u).countP (isOfferTo v) := List.countP_pos_iff.2 ⟨message, hmem, hoffer⟩
  have hoffers : (s.progress u).offersTo v = true := by
    by_contra hno
    rw [if_neg hno] at honce
    omega
  unfold Progress.offersTo at hoffers
  simp only [Bool.and_eq_true, List.contains_iff_mem] at hoffers
  cases hids : (s.progress u).existingUserIds with
  | none =>
    rw [hids] at hoffers
    exact absurd hoffers.2 List.not_mem_nil
  | some ids =>
    rw [hids] at hoffers
    obtain ⟨hne, hjoined⟩ := (h.room.existing u ids hids).2 v hoffers.2
    exact ⟨hoffers.1, hne, hjoined⟩

theorem countP_receive {message : Value} (hposted : Posted message) (a b : String) :
    (s.receive c u message).countP (Relayed.is a b) = if u = a ∧ isOfferTo b message = true then 1 else 0 := by
  obtain ⟨type, v, k, w, -, rfl⟩ := hposted
  rw [receive_posted, isOfferTo_posted]
  by_cases htype : type = "offer"
  · rw [if_pos htype, List.countP_singleton]
    simp [Relayed.is, htype]
  · simp [htype]

theorem Sending.received (h : Sending s) {message : Value} {frames : List Value} (hframes : s.frames u = message :: frames) :
    Sending (s.received c u message frames) := by
  have hposted : Posted message := h.posted u message (by rw [hframes]; exact List.mem_cons_self)
  refine ⟨?_, ?_⟩
  · intro a x hx
    have hx : x ∈ Function.update s.frames u frames a := hx
    by_cases ha : a = u
    · rw [ha, Function.update_self] at hx
      exact h.posted u x (by rw [hframes]; exact List.mem_cons_of_mem _ hx)
    · rw [Function.update_of_ne ha] at hx
      exact h.posted a x hx
  · intro a b
    have honce := h.once a b
    show (s.client a).offering.count b + (Function.update s.frames u frames a).countP (isOfferTo b) +
      (s.relayed ++ s.receive c u message).countP (Relayed.is a b) = if (s.progress a).offersTo b then 1 else 0
    rw [List.countP_append, countP_receive hposted, ← honce]
    by_cases ha : a = u
    · subst ha
      rw [Function.update_self, hframes, List.countP_cons]
      simp only [true_and]
      omega
    · rw [Function.update_of_ne ha, if_neg fun hu => ha hu.1.symm]
      rfl

/-- the server puts an offer on the target's socket, and nothing else is an offer -/
theorem countP_relay {message : Value} (hposted : Posted message)
    (hregistered : ∀ v, s.active.peer c v = if (s.progress v).connected then some v else none)
    (hnamed : ∀ v, isOfferTo v message = true → v ≠ "") (a b : String) :
    (((relay s.active c u u (.json message) .ok).2.filter fun x => x.socket = b).map Sent.message).countP (isOfferFrom a) =
      (s.receive c u message).countP fun e => e.put && e.is a b := by
  obtain ⟨type, v, k, w, hk, rfl⟩ := hposted
  have herror : isOfferFrom a peerNotConnected = false := not_offer_from (by simp [text, peerNotConnected, getItem]) a
  rw [relay_posted hk, receive_posted, hregistered]
  by_cases htype : type = "offer"
  · have hv : v ≠ "" := hnamed v (by rw [isOfferTo_posted]; simp [htype])
    rw [if_neg hv, if_pos htype]
    cases hconn : (s.progress v).connected with
    | true =>
      by_cases hb : v = b
      · simp [Relayed.is, isOfferFrom_stamped hk, htype, hb, List.countP_singleton]
      · simp [Relayed.is, hb]
    | false =>
      by_cases hb : u = b
      · simp [hb, herror]
      · simp [hb]
  · rw [if_neg htype, List.countP_nil, List.countP_eq_zero]
    intro x hx
    obtain ⟨y, hy, rfl⟩ := List.mem_map.1 hx
    have hy := (List.mem_filter.1 hy).1
    split_ifs at hy with hv hconn
    · exact absurd hy List.not_mem_nil
    · obtain rfl := List.mem_singleton.1 hy
      simp [isOfferFrom_stamped hk, htype]
    · obtain rfl := List.mem_singleton.1 hy
      simp [herror]

/-- an offer that the server receives -/
theorem receive_spec {message : Value} {e : Relayed} (he : e ∈ s.receive c u message) :
    e.offerer = u ∧ isOfferTo e.target message = true ∧ e.put = (s.active.peer c e.target).isSome ∧
      e.lacked = (s.client e.target).lacks e.offerer := by
  unfold St.receive at he
  split_ifs at he with htype
  · split at he
    · next v hto =>
      obtain rfl := List.mem_singleton.1 he
      exact ⟨rfl, by simp [isOfferTo, htype, hto], rfl, rfl⟩
    · exact absurd he List.not_mem_nil
  · exact absurd he List.not_mem_nil

theorem receive_length (s : St) (c u : String) (message : Value) :
    s.receive c u message = [] ∨ ∃ r, s.receive c u message = [r] := by
  unfold St.receive
  split
  · split
    · exact Or.inr ⟨_, rfl⟩
    · exact Or.inl rfl
  · exact Or.inl rfl

/-- the offer received now is as those before it -/
theorem Inv.history_received (h : Inv c s) {message : Value} {frames : List Value} (hframes : s.frames u = message :: frames) :
    History (s.received c u message frames) := by
  have hmem : message ∈ s.frames u := by rw [hframes]; exact List.mem_cons_self
  refine ⟨?_, ?_, ?_, ?_⟩
  · intro e he
    rcases List.mem_append.1 he with he | he
    · exact h.history.opened e he
    · obtain ⟨hu, hto, -⟩ := receive_spec he
      exact hu ▸ (h.offersTo hmem hto).1
  · intro e he
    rcases List.mem_append.1 he with he | he
    · exact h.history.distinct e he
    · obtain ⟨hu, hto, -⟩ := receive_spec he
      exact hu ▸ (h.offersTo hmem hto).2.1.symm
  · intro e he
    rcases List.mem_append.1 he with he | he
    · exact h.history.lacked e he
    · exact (receive_spec he).2.2.2.symm
  · -- the last of the offers is the one received now, and who has offered its sender one has a socket
    intro before e after hsplit hbefore
    have hold : ∀ after, s.relayed = before ++ e :: after → e.put = true := fun after heq =>
      h.history.late before e after heq hbefore
    have hsplit : s.relayed ++ s.receive c u message = before ++ e :: after := hsplit
    rcases receive_length s c u message with hnil | ⟨r, hr⟩
    · rw [hnil, List.append_nil] at hsplit
      exact hold after hsplit
    · rw [hr] at hsplit
      rcases List.eq_nil_or_concat after with rfl | ⟨after, x, rfl⟩
      · obtain ⟨rfl, hlast⟩ := List.append_inj' hsplit rfl
        obtain rfl : r = e := List.head_eq_of_cons_eq hlast
        obtain ⟨x, hx, hfrom⟩ := hbefore
        simp only [Relayed.is, Bool.and_eq_true, decide_eq_true_eq] at hfrom
        have hput : r.put = (s.active.peer c r.target).isSome :=
          (receive_spec (by rw [hr]; exact List.mem_singleton_self r)).2.2.1
        rw [hput, h.room.registered, ← hfrom.1, if_pos (h.room.opened _ (h.history.opened x hx))]
        rfl
      · rw [List.concat_eq_append, ← List.cons_append, ← List.append_assoc] at hsplit
        exact hold after (List.append_inj' hsplit rfl).1

/-- the server receives a frame -/
theorem Inv.relay (h : Inv c s) {message : Value} {frames : List Value} (hframes : s.frames u = message :: frames) :
    Inv c ((s.received c u message frames).put (relay s.active c u u (.json message) .ok).2) := by
  have hmem : message ∈ s.frames u := by rw [hframes]; exact List.mem_cons_self
  refine ⟨h.room, (h.sending.received hframes).congr rfl rfl (fun _ => rfl) fun _ _ => rfl, ?_,
    (h.history_received hframes).congr rfl (fun _ ho => ho) fun _ _ => rfl⟩
  intro a b
  have harrived := h.arrived a b
  show (s.relayed ++ s.receive c u message).countP (fun e => e.put && e.is a b) = (s.inbox b ++ _).countP _ + _
  rw [List.countP_append, List.countP_append, harrived, countP_relay (h.sending.posted u message hmem) h.room.registered
    (fun v hv => h.room.named v (h.offersTo hmem hv).2.2)]
  show _ = _ + _ + s.delivered.countP (handled a b)
  omega

/-- one operation -/
theorem inv_step (h : Inv c s) (o : Op) : Inv c (step c s o) := by
  cases o with
  | join u now =>
    simp only [step]
    split_ifs with hready
    · have hjoined : Inv c (({ s with members := s.members.set u now } : St).setClient u
          { s.client u with progress := { (s.client u).progress with joined := true } }) :=
        h.advance (h.room.join hready.1 now) rfl rfl rfl
      refine hjoined.put ?_
      intro x hx
      obtain ⟨p, -, rfl⟩ := List.mem_map.1 hx
      simp [participantJoined, text, getItem]
    · exact h
  | list u =>
    simp only [step]
    split_ifs with hready
    · simp only [Progress.ready, Bool.and_eq_true, Option.isNone_iff_eq_none] at hready
      exact h.list hready.1 hready.2 rfl rfl
    · exact h
  | connect u =>
    simp only [step]
    split_ifs with hready
    · simp only [Progress.ready, Bool.and_eq_true] at hready
      refine h.advance (h.room.move rfl rfl (fun _ => hready.1) (fun _ => rfl) ?_ ?_) rfl rfl rfl
      · rw [Registry.peer_connect]
        simp
      · intro a ha
        rw [Registry.peer_connect]
        simp [ha]
    · exact h
  | onopen u =>
    simp only [step]
    split_ifs with hready
    · simp only [Progress.ready, Bool.and_eq_true, Bool.not_eq_true'] at hready
      exact h.onopen hready.1 hready.2 rfl rfl
    · exact h
  | offer u v sdp =>
    simp only [step]
    split_ifs with hv
    · exact h.offer hv sdp
    · exact h
  | answer u v sdp =>
    simp only [step]
    split_ifs
    · have hclient : Inv c (s.setClient u { s.client u with answering := (s.client u).answering.erase v }) :=
        h.setClient rfl rfl
      exact hclient.post (posted_answer v sdp) (by simp [Calls.answer, text, getItem])
    · exact h
  | candidate u v candidate =>
    simp only [step]
    split_ifs
    · exact h.post (posted_candidate v candidate) (by simp [iceCandidate, text, getItem])
    · exact h
  | relay u =>
    simp only [step]
    split
    · exact h
    · next hframes => exact h.relay hframes
  | deliver u =>
    simp only [step]
    split_ifs
    · split
      · exact h
      · next hinbox => exact h.deliver hinbox
    · exact h

end Step

theorem inv_run (c : String) (ops : List Op) : Inv c (run (step c) start ops) :=
  run_inv' (I := Inv c) (fun _ o h => inv_step h o) (inv_start c) ops

/-! ## The first offer -/

theorem relayed_step (c : String) (s : St) (o : Op) : (step c s o).relayed = s.relayed ++ s.receives c o := by
  cases o with
  | relay u =>
    simp only [step, St.receives]
    split
    · next hframes => simp [hframes]
    · next hframes => simp [hframes, St.put]
  | _ =>
    simp only [step, St.receives, List.append_nil]
    repeat' split
    all_goals rfl

theorem receives_spec {c : String} {s : St} {o : Op} {e : Relayed} (he : e ∈ s.receives c o) :
    e.put = (s.active.peer c e.target).isSome ∧ e.lacked = (s.client e.target).lacks e.offerer := by
  unfold St.receives at he
  split at he
  · next u =>
    cases hhead : (s.frames u).head? with
    | none =>
      rw [hhead] at he
      exact absurd he List.not_mem_nil
    | some message =>
      rw [hhead, Option.elim_some] at he
      exact (receive_spec he).2.2
  · exact absurd he List.not_mem_nil

theorem receives_length (s : St) (c : String) (o : Op) : s.receives c o = [] ∨ ∃ r, s.receives c o = [r] := by
  unfold St.receives
  split
  · next u =>
    cases (s.frames u).head? with
    | none => exact Or.inl rfl
    | some message => exact receive_length s c u message
  · exact Or.inl rfl

/-- of a run it is the first offer between the two that counts -/
theorem along_inTime (c u v : String) (ops : List Op) :
    Along (step c) (InTime c u v) start ops ↔
      ∀ e, (run (step c) start ops).relayed.find? (fun e => e.between u v) = some e → e.put = e.lacked := by
  induction ops using List.reverseRecOn with
  | nil => exact ⟨nofun, fun _ => trivial⟩
  | append_singleton ops o ih =>
    rw [along_append, ih, run_snoc]
    generalize run (step c) start ops = s
    have hone : Along (step c) (InTime c u v) s [o] ↔ InTime c u v s o := and_iff_left trivial
    rw [hone, relayed_step, List.find?_append]
    cases hfind : s.relayed.find? fun e => e.between u v with
    | some e =>
      -- there was one before
      have hvacuous : InTime c u v s o := by
        intro hnone
        have hbetween := hnone e (List.mem_of_find?_eq_some hfind)
        rw [List.find?_some hfind] at hbetween
        cases hbetween
      rw [Option.some_or]
      exact and_iff_left hvacuous
    | none =>
      have hnone : ∀ e ∈ s.relayed, e.between u v = false := by simpa using List.find?_eq_none.1 hfind
      rw [Option.none_or]
      refine ⟨?_, ?_⟩
      · rintro ⟨-, htime⟩ e he
        have hmem := List.mem_of_find?_eq_some he
        obtain ⟨hput, hlacked⟩ := receives_spec hmem
        rw [hput, hlacked]
        have hbetween : e.between u v = true := List.find?_some (p := fun e : Relayed => e.between u v) he
        exact htime hnone e hmem hbetween
      · intro h
        refine ⟨nofun, ?_⟩
        intro _ e hmem hbetween
        obtain ⟨hput, hlacked⟩ := receives_spec hmem
        rw [← hput, ← hlacked]
        refine h e ?_
        rcases receives_length s c o with hnil | ⟨r, hr⟩
        · rw [hnil] at hmem
          exact absurd hmem List.not_mem_nil
        · rw [hr] at hmem ⊢
          obtain rfl := List.mem_singleton.1 hmem
          exact List.find?_cons_of_pos hbetween

/-! ## Two clients that have settled -/

/-- nothing is handled in both directions -/
theorem countP_offerBetween {u v : String} (huv : u ≠ v) (l : List (String × Value)) :
    l.countP (offerBetween u v) = l.countP (handled u v) + l.countP (handled v u) := by
  induction l with
  | nil => rfl
  | cons d l ih =>
    have hone : offerBetween u v d = (handled u v d || handled v u d) := rfl
    have hdisjoint : handled u v d = true → handled v u d = false := by
      simp only [handled, Bool.and_eq_true, decide_eq_true_eq, Bool.and_eq_false_iff, decide_eq_false_iff_not]
      exact fun hv => Or.inl fun hu => huv (hu.symm.trans hv.1)
    rw [List.countP_cons, List.countP_cons, List.countP_cons, ih, hone]
    cases hd : handled u v d with
    | true =>
      rw [hdisjoint hd]
      simp only [Bool.or_false, if_true, Bool.false_eq_true, if_false]
      omega
    | false =>
      simp only [Bool.false_or, Bool.false_eq_true, if_false]
      omega

/-- the only element that meets a condition decides what is counted of those that do -/
theorem countP_and_of_unique {α : Type*} {p q : α → Bool} {l : List α} (hone : l.countP p = 1) {x : α} (hx : x ∈ l)
    (hp : p x = true) : l.countP (fun y => q y && p y) = if q x = true then 1 else 0 := by
  rw [← List.countP_filter]
  rw [List.countP_eq_length_filter] at hone
  obtain ⟨y, hy⟩ := List.length_eq_one_iff.1 hone
  obtain rfl : x = y := by
    have hmem : x ∈ l.filter p := List.mem_filter.2 ⟨hx, hp⟩
    rw [hy] at hmem
    exact List.mem_singleton.1 hmem
  rw [hy, List.countP_singleton]

section Settled

variable {c : String} {s : St} {u v : String}

theorem Settled.symm (hs : Settled s u v) : Settled s v u :=
  ⟨hs.opened.symm, hs.offered.symm, hs.received.symm, hs.handled.symm⟩

theorem oneOffer_comm (s : St) (u v : String) : OneOffer s u v ↔ OneOffer s v u := by
  have hcomm : offerBetween u v = offerBetween v u := funext fun _ => Bool.or_comm _ _
  unfold OneOffer
  rw [hcomm]

theorem Inv.listed (h : Inv c s) (hopened : (s.client u).progress.opened = true) :
    ∃ ids, (s.client u).progress.existingUserIds = some ids :=
  Option.isSome_iff_exists.1 (h.room.connected u (h.room.opened u hopened))

/-- each of the two has offered to the other if it has listed it -/
theorem Inv.countP_is (h : Inv c s) (hs : Settled s u v) {ids : List String}
    (hids : (s.client u).progress.existingUserIds = some ids) :
    s.relayed.countP (Relayed.is u v) = if v ∈ ids then 1 else 0 := by
  have honce := h.sending.once u v
  have hoffers : (s.progress u).offersTo v = decide (v ∈ ids) := by
    unfold Progress.offersTo St.progress
    rw [hs.opened.1, hids, Option.getD_some, Bool.true_and]
    exact List.elem_eq_mem v ids
  rw [hs.offered.1, hs.received.1, hoffers, List.count_nil, List.countP_nil] at honce
  simpa using honce

/-- what has been put on the socket of one of the two has been handled -/
theorem Inv.countP_put (h : Inv c s) (hs : Settled s u v) :
    s.relayed.countP (fun e => e.put && e.is u v) = s.delivered.countP (Calls.handled u v) := by
  rw [h.arrived u v, hs.handled.2, List.countP_nil, Nat.zero_add]

/-- an offer in the other direction comes after the first, and finds its target's socket -/
theorem Inv.back (h : Inv c s) (huv : u ≠ v) {e x : Relayed} (hfind : s.relayed.find? (fun e => e.between u v) = some e)
    (he : e.is u v = true) (hx : x ∈ s.relayed) (hxis : x.is v u = true) : x.put = true := by
  obtain ⟨-, before, after, hsplit, hnone⟩ := List.find?_eq_some_iff_append.1 hfind
  simp only [Relayed.is, Bool.and_eq_true, decide_eq_true_eq] at he hxis
  have hlater : x ∈ after := by
    rw [hsplit] at hx
    rcases List.mem_append.1 hx with hx | hx
    · have hno := hnone x hx
      simp [Relayed.between, hxis] at hno
    · rcases List.mem_cons.1 hx with rfl | hx
      · exact absurd (he.1.symm.trans hxis.1) huv
      · exact hx
  obtain ⟨between, rest, rfl⟩ := List.append_of_mem hlater
  refine h.history.late (before ++ e :: between) x rest (by rw [hsplit]; simp) ⟨e, by simp, ?_⟩
  simp [Relayed.is, he, hxis]

/-- the first offer, from `u` to `v`, decides whether there is one -/
theorem Inv.oneOffer_iff (h : Inv c s) (huv : u ≠ v) (hs : Settled s u v) {e : Relayed}
    (hfind : s.relayed.find? (fun e => e.between u v) = some e) (he : e.is u v = true) : OneOffer s u v ↔ e.put = e.lacked := by
  obtain ⟨us, hus⟩ := h.listed hs.opened.1
  obtain ⟨vs, hvs⟩ := h.listed hs.opened.2
  have hmem : e ∈ s.relayed := List.mem_of_find?_eq_some hfind
  have hu : e.offerer = u ∧ e.target = v := by simpa [Relayed.is] using he
  have hlacked : e.lacked = decide (u ∉ vs) := by
    rw [← h.history.lacked e hmem, hu.1, hu.2]
    unfold Client.lacks
    rw [hvs, Option.any_some]
  -- the offer from `u` to `v`
  have hone : s.relayed.countP (Relayed.is u v) = 1 := by
    have hpos : 0 < s.relayed.countP (Relayed.is u v) := List.countP_pos_iff.2 ⟨e, hmem, he⟩
    rw [h.countP_is hs hus] at hpos ⊢
    split_ifs at hpos ⊢
    · rfl
    · omega
  have hthere := h.countP_put hs
  rw [countP_and_of_unique hone hmem he] at hthere
  -- the offer from `v` to `u`, after the first
  have hback := h.countP_put hs.symm
  have hvu := h.countP_is hs.symm hvs
  have hputback : s.relayed.countP (fun e => e.put && e.is v u) = if u ∈ vs then 1 else 0 := by
    split_ifs at hvu ⊢ with hlists
    · obtain ⟨x, hx, hxis⟩ : ∃ x ∈ s.relayed, x.is v u = true := List.countP_pos_iff.1 (by omega)
      rw [countP_and_of_unique hvu hx hxis, if_pos (h.back huv hfind he hx hxis)]
    · have hle : s.relayed.countP (fun e => e.put && e.is v u) ≤ s.relayed.countP (Relayed.is v u) :=
        List.countP_mono_left fun x _ hx => (Bool.and_eq_true _ _ ▸ hx).2
      omega
  unfold OneOffer
  rw [countP_offerBetween huv, ← hthere, ← hback, hputback, hlacked]
  by_cases hlists : u ∈ vs <;> cases e.put <;> simp [hlists]

/-- of two that have settled one has offered -/
theorem Inv.first (h : Inv c s) (huv : u ≠ v) (hs : Settled s u v) :
    ∃ e, s.relayed.find? (fun e => e.between u v) = some e ∧ (e.is u v = true ∨ e.is v u = true) := by
  obtain ⟨us, hus⟩ := h.listed hs.opened.1
  obtain ⟨vs, hvs⟩ := h.listed hs.opened.2
  have hoffered : ∃ x ∈ s.relayed, x.between u v = true := by
    rcases h.room.either u v us vs huv hus hvs with hlists | hlists
    · have hcount := h.countP_is hs.symm hvs
      rw [if_pos hlists] at hcount
      obtain ⟨x, hx, hxis⟩ := List.countP_pos_iff.1 (hcount ▸ Nat.one_pos)
      exact ⟨x, hx, Bool.or_eq_true_iff.2 (Or.inr hxis)⟩
    · have hcount := h.countP_is hs hus
      rw [if_pos hlists] at hcount
      obtain ⟨x, hx, hxis⟩ := List.countP_pos_iff.1 (hcount ▸ Nat.one_pos)
      exact ⟨x, hx, Bool.or_eq_true_iff.2 (Or.inl hxis)⟩
  obtain ⟨e, he⟩ := Option.isSome_iff_exists.1 (List.find?_isSome.2 hoffered)
  have hbetween : e.between u v = true := List.find?_some (p := fun e : Relayed => e.between u v) he
  exact ⟨e, he, Bool.or_eq_true_iff.1 hbetween⟩

theorem Inv.oneOffer_iff_first (h : Inv c s) (huv : u ≠ v) (hs : Settled s u v) :
    OneOffer s u v ↔ ∀ e, s.relayed.find? (fun e => e.between u v) = some e → e.put = e.lacked := by
  obtain ⟨e, hfind, he⟩ := h.first huv hs
  have hiff : OneOffer s u v ↔ e.put = e.lacked := by
    rcases he with he | he
    · exact h.oneOffer_iff huv hs hfind he
    · rw [oneOffer_comm]
      refine h.oneOffer_iff huv.symm hs.symm ?_ he
      rw [← hfind]
      exact congrArg (fun p => s.relayed.find? p) (funext fun _ => Bool.or_comm _ _)
  rw [hiff]
  refine ⟨?_, fun hall => hall e hfind⟩
  rintro hput e' he'
  obtain rfl := Option.some.inj (hfind.symm.trans he')
  exact hput

end Settled

/-- **One offer.** Two users whose sockets are open and between whom nothing is in flight have exactly one offer between
them exactly if the first that the server received was in time. -/
theorem one_offer_iff (c u v : String) (huv : u ≠ v) (ops : List Op) (hs : Settled (run (step c) start ops) u v) :
    OneOffer (run (step c) start ops) u v ↔ Along (step c) (InTime c u v) start ops := by
  rw [along_inTime]
  exact (inv_run c ops).oneOffer_iff_first huv hs

/-- bob comes when alice's socket is open, and offers -/
def inTurn : List Op :=
  [.join "alice" 0, .list "alice", .connect "alice", .onopen "alice", .join "bob" 1, .list "bob", .connect "bob", .onopen "bob",
    .offer "bob" "alice" "", .relay "bob", .deliver "alice", .deliver "alice"]

theorem one_offer_inTurn : OneOffer (run (step "lounge") start inTurn) "alice" "bob" :=
  (one_offer_iff "lounge" "alice" "bob" (by decide) inTurn
    ⟨⟨rfl, rfl⟩, ⟨rfl, rfl⟩, ⟨rfl, rfl⟩, ⟨rfl, rfl⟩⟩).2 (by decide +kernel)

/-- both join before either lists the participants -/
def bothOffer : List Op :=
  [.join "alice" 0, .join "bob" 1, .list "alice", .list "bob", .connect "alice", .connect "bob", .onopen "alice",
    .onopen "bob", .offer "alice" "bob" "", .offer "bob" "alice" "", .relay "alice", .relay "bob", .deliver "bob",
    .deliver "alice"]

/-- alice lists the participants before bob joins, and opens her socket after his offer -/
def offerDropped : List Op :=
  [.join "alice" 0, .list "alice", .join "bob" 1, .list "bob", .connect "bob", .onopen "bob", .offer "bob" "alice" "",
    .relay "bob", .deliver "bob", .connect "alice", .onopen "alice"]

/-- of two that have settled, both have offered; of two others, neither's offer has arrived -/
theorem two_offers_or_none :
    (Settled (run (step "lounge") start bothOffer) "alice" "bob" ∧
        ¬ OneOffer (run (step "lounge") start bothOffer) "alice" "bob") ∧
      Settled (run (step "lounge") start offerDropped) "alice" "bob" ∧
        ¬ OneOffer (run (step "lounge") start offerDropped) "alice" "bob" := by
  refine ⟨⟨⟨⟨rfl, rfl⟩, ⟨rfl, rfl⟩, ⟨rfl, rfl⟩, ⟨rfl, rfl⟩⟩, ?_⟩, ⟨⟨rfl, rfl⟩, ⟨rfl, rfl⟩, ⟨rfl, rfl⟩, ⟨rfl, rfl⟩⟩, ?_⟩
  · unfold OneOffer
    decide +kernel
  · unfold OneOffer
    decide +kernel

end Concordia.Voice.Calls
