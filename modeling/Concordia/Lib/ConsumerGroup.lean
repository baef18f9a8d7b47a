/-
A consumer group over a partitioned log. The log keeps every event; each partition is read by at most one member of the
group, from the offset the group has committed on; a member keeps a state of its own, which it folds the events it is
given into, and loses when it leaves.

- `next`: the offset from which a member is given a partition, by itself or after a rebalance.
- `Shared wanted`: a member joins only while no wanted event is committed, and a commit covers only wanted events that
  every member has been given.
- `given_run`: along such steps a member has been given every wanted event before its `next`.
- `state_eq`: its state is the fold of what it has been given.
-/
import Concordia.Lib.Run
import Concordia.Lib.Rows

namespace Concordia.Lib.ConsumerGroup

open Function (update update_self update_of_ne)

variable {π ε σ : Type*}

/-- who reads a partition, and the offset it reads next -/
structure Reader where
  member : ℕ
  position : ℕ
deriving DecidableEq, Repr

/-- an event as a member was given it -/
structure Delivery (π ε : Type*) where
  partition : π
  offset : ℕ
  event : ε
deriving DecidableEq, Repr

structure Member (π ε σ : Type*) where
  /-- what it has been given, in order -/
  read : List (Delivery π ε)
  state : σ

structure St (π ε σ : Type*) where
  log : π → List ε
  committed : π → ℕ
  reader : π → Option Reader
  members : ℕ → Option (Member π ε σ)

def init : St π ε σ := ⟨fun _ => [], fun _ => 0, fun _ => none, fun _ => none⟩

inductive Op (π ε : Type*) where
  | publish (p : π) (e : ε)
  | join (n : ℕ)
  /-- it stops or crashes -/
  | leave (n : ℕ)
  | assign (p : π) (n : ℕ)
  | revoke (p : π)
  | poll (p : π)
  | commit (p : π)
deriving DecidableEq, Repr

/-- the offset from which a member is given a partition -/
def next (s : St π ε σ) (n : ℕ) (p : π) : ℕ :=
  match s.reader p with
  | some rd => if rd.member = n then rd.position else s.committed p
  | none => s.committed p

/-- nothing that is in the log will be given to the member any more -/
def Drained (s : St π ε σ) (n : ℕ) : Prop := ∀ p, (s.log p).length ≤ next s n p

def Given (m : Member π ε σ) (p : π) (i : ℕ) : Prop := ∃ d ∈ m.read, d.partition = p ∧ d.offset = i

section

variable [DecidableEq π] (start : σ) (consume : σ → ε → σ)

def step (s : St π ε σ) : Op π ε → St π ε σ
  | .publish p e => { s with log := update s.log p (s.log p ++ [e]) }
  | .join n =>
    match s.members n with
    | some _ => s
    | none => { s with members := update s.members n (some ⟨[], start⟩) }
  | .leave n =>
    { s with
      members := update s.members n none
      reader := fun p => (s.reader p).filter fun rd => rd.member ≠ n }
  | .assign p n =>
    match s.reader p, s.members n with
    | none, some _ => { s with reader := update s.reader p (some ⟨n, s.committed p⟩) }
    | _, _ => s
  | .revoke p => { s with reader := update s.reader p none }
  | .poll p =>
    match s.reader p with
    | none => s
    | some rd =>
      match (s.log p)[rd.position]?, s.members rd.member with
      | some e, some m =>
        { s with
          reader := update s.reader p (some { rd with position := rd.position + 1 })
          members := update s.members rd.member (some ⟨m.read ++ [⟨p, rd.position, e⟩], consume m.state e⟩) }
      | _, _ => s
  | .commit p =>
    match s.reader p with
    | none => s
    | some rd => { s with committed := update s.committed p rd.position }

end

/-- no wanted event is committed that some member will not be given -/
def Shared (wanted : ε → Prop) (s : St π ε σ) : Op π ε → Prop
  | .join n => s.members n = none → ∀ p i e, i < s.committed p → (s.log p)[i]? = some e → ¬ wanted e
  | .commit p => ∀ rd, s.reader p = some rd → ∀ n m, s.members n = some m →
      ∀ i e, i < rd.position → (s.log p)[i]? = some e → wanted e → Given m p i
  | _ => True

/-! ## What a step can do -/

section

variable [DecidableEq π] {start : σ} {consume : σ → ε → σ}

/-- the steps that change something -/
inductive Effect (start : σ) (consume : σ → ε → σ) (s : St π ε σ) : Op π ε → St π ε σ → Prop where
  | publish (p : π) (e : ε) : Effect start consume s (.publish p e) { s with log := update s.log p (s.log p ++ [e]) }
  | join {n : ℕ} (hnone : s.members n = none) :
      Effect start consume s (.join n) { s with members := update s.members n (some ⟨[], start⟩) }
  | leave (n : ℕ) : Effect start consume s (.leave n)
      { s with
        members := update s.members n none
        reader := fun p => (s.reader p).filter fun rd => rd.member ≠ n }
  | assign {p : π} {n : ℕ} {m : Member π ε σ} (hfree : s.reader p = none) (hm : s.members n = some m) :
      Effect start consume s (.assign p n) { s with reader := update s.reader p (some ⟨n, s.committed p⟩) }
  | revoke (p : π) : Effect start consume s (.revoke p) { s with reader := update s.reader p none }
  | poll {p : π} {rd : Reader} {e : ε} {m : Member π ε σ} (hrd : s.reader p = some rd)
      (he : (s.log p)[rd.position]? = some e) (hm : s.members rd.member = some m) : Effect start consume s (.poll p)
        { s with
          reader := update s.reader p (some { rd with position := rd.position + 1 })
          members := update s.members rd.member (some ⟨m.read ++ [⟨p, rd.position, e⟩], consume m.state e⟩) }
  | commit {p : π} {rd : Reader} (hrd : s.reader p = some rd) :
      Effect start consume s (.commit p) { s with committed := update s.committed p rd.position }

theorem step_effect (start : σ) (consume : σ → ε → σ) (s : St π ε σ) (o : Op π ε) :
    step start consume s o = s ∨ Effect start consume s o (step start consume s o) := by
  cases o with
  | publish p e => exact .inr (.publish p e)
  | join n =>
    simp only [step]
    split
    · exact .inl rfl
    · next hnone => exact .inr (.join hnone)
  | leave n => exact .inr (.leave n)
  | assign p n =>
    simp only [step]
    split
    · next hfree hm => exact .inr (.assign hfree hm)
    · exact .inl rfl
  | revoke p => exact .inr (.revoke p)
  | poll p =>
    simp only [step]
    split
    · exact .inl rfl
    · next hrd =>
      split
      · next he hm => exact .inr (.poll hrd he hm)
      · exact .inl rfl
  | commit p =>
    simp only [step]
    split
    · exact .inl rfl
    · next hrd => exact .inr (.commit hrd)

/-! ## Offsets -/

structure Inv (start : σ) (consume : σ → ε → σ) (s : St π ε σ) : Prop where
  /-- a partition is read by a member -/
  reading : ∀ p rd, s.reader p = some rd → s.members rd.member ≠ none
  /-- from the committed offset on -/
  ahead : ∀ p rd, s.reader p = some rd → s.committed p ≤ rd.position ∧ rd.position ≤ (s.log p).length
  committed : ∀ p, s.committed p ≤ (s.log p).length
  /-- what a member was given is in the log -/
  delivered : ∀ n m, s.members n = some m → ∀ d ∈ m.read, (s.log d.partition)[d.offset]? = some d.event
  /-- a member's state is the fold of what it was given -/
  folded : ∀ n m, s.members n = some m → m.state = (m.read.map Delivery.event).foldl consume start

omit [DecidableEq π] in
theorem inv_init : Inv start consume (init : St π ε σ) := by
  constructor <;> simp [init]

/-- an event that is published leaves what is in the log where it is -/
theorem getElem?_publish {log : π → List ε} {p p' : π} {e e' : ε} {i : ℕ} (h : (log p')[i]? = some e') :
    (update log p (log p ++ [e]) p')[i]? = some e' := by
  rcases eq_or_ne p' p with rfl | hne
  · rw [update_self, List.getElem?_append_left (List.getElem?_eq_some_iff.1 h).1]
    exact h
  · rwa [update_of_ne hne]

theorem length_publish {log : π → List ε} {p p' : π} {e : ε} {i : ℕ} (h : i ≤ (log p').length) :
    i ≤ (update log p (log p ++ [e]) p').length := by
  rcases eq_or_ne p' p with rfl | hne
  · rw [update_self, List.length_append]
    exact h.trans (Nat.le_add_right _ _)
  · rwa [update_of_ne hne]

theorem inv_step (s : St π ε σ) (o : Op π ε) (h : Inv start consume s) :
    Inv start consume (step start consume s o) := by
  rcases step_effect start consume s o with heq | he
  · rwa [heq]
  generalize step start consume s o = t at he
  cases he with
  | publish p e =>
    refine ⟨h.reading, ?_, fun p' => length_publish (h.committed p'), ?_, h.folded⟩
    · intro p' rd hrd
      exact ⟨(h.ahead p' rd hrd).1, length_publish (h.ahead p' rd hrd).2⟩
    · intro n m hm d hd
      exact getElem?_publish (h.delivered n m hm d hd)
  | @join n hnone =>
    refine ⟨?_, h.ahead, h.committed, forall_update_some h.delivered (by simp), forall_update_some h.folded rfl⟩
    intro p rd hrd
    have hne : rd.member ≠ n := fun heq => h.reading p rd hrd (heq ▸ hnone)
    simp only [update_of_ne hne]
    exact h.reading p rd hrd
  | leave n =>
    refine ⟨?_, ?_, h.committed, forall_update_none h.delivered, forall_update_none h.folded⟩
    · intro p rd hrd
      obtain ⟨hrd, hne⟩ := Option.filter_eq_some_iff.1 hrd
      have hne : rd.member ≠ n := by simpa using hne
      simp only [update_of_ne hne]
      exact h.reading p rd hrd
    · intro p rd hrd
      exact h.ahead p rd (Option.filter_eq_some_iff.1 hrd).1
  | @assign p n m hfree hm =>
    have hreading : s.members n ≠ none := by simp [hm]
    exact ⟨forall_update_some h.reading hreading, forall_update_some h.ahead ⟨le_rfl, h.committed p⟩, h.committed,
      h.delivered, h.folded⟩
  | revoke p =>
    exact ⟨forall_update_none h.reading, forall_update_none h.ahead, h.committed, h.delivered, h.folded⟩
  | @poll p rd e m hrd he hm =>
    have hmember : ∀ n, s.members n ≠ none →
        update s.members rd.member (some ⟨m.read ++ [⟨p, rd.position, e⟩], consume m.state e⟩) n ≠ none := by
      intro n hn
      rcases eq_or_ne n rd.member with rfl | hne
      · simp
      · rwa [update_of_ne hne]
    have hlt : rd.position < (s.log p).length := (List.getElem?_eq_some_iff.1 he).1
    refine ⟨?_, ?_, h.committed, ?_, ?_⟩
    · exact forall_update_some (fun p' rd' hrd' => hmember _ (h.reading p' rd' hrd')) (hmember _ (h.reading p rd hrd))
    · exact forall_update_some h.ahead ⟨(h.ahead p rd hrd).1.trans (Nat.le_succ _), hlt⟩
    · refine forall_update_some h.delivered ?_
      intro d hd
      rcases List.mem_append.1 hd with hd | hd
      · exact h.delivered _ m hm d hd
      · rw [List.mem_singleton.1 hd]
        exact he
    · refine forall_update_some h.folded ?_
      simp [h.folded _ m hm]
  | @commit p rd hrd =>
    refine ⟨h.reading, ?_, ?_, h.delivered, h.folded⟩
    · intro p' rd' hrd'
      simp only
      rcases eq_or_ne p' p with rfl | hne
      · obtain rfl := Option.some.inj (hrd.symm.trans hrd')
        rw [update_self]
        exact ⟨le_rfl, (h.ahead p' rd hrd).2⟩
      · rw [update_of_ne hne]
        exact h.ahead p' rd' hrd'
    · intro p'
      simp only
      rcases eq_or_ne p' p with rfl | hne
      · rw [update_self]
        exact (h.ahead p' rd hrd).2
      · rw [update_of_ne hne]
        exact h.committed p'

theorem inv_reached (start : σ) (consume : σ → ε → σ) (ops : List (Op π ε)) :
    Inv start consume (run (step start consume) init ops) :=
  run_inv' inv_step inv_init ops

omit [DecidableEq π] in
theorem next_le {s : St π ε σ} (h : Inv start consume s) (n : ℕ) (p : π) : next s n p ≤ (s.log p).length := by
  unfold next
  split
  · next rd hrd =>
    split_ifs
    · exact (h.ahead p rd hrd).2
    · exact h.committed p
  · exact h.committed p

omit [DecidableEq π] in
theorem committed_le_next {s : St π ε σ} (h : Inv start consume s) (n : ℕ) (p : π) : s.committed p ≤ next s n p := by
  unfold next
  split
  · next rd hrd =>
    split_ifs
    · exact (h.ahead p rd hrd).1
    · exact le_rfl
  · exact le_rfl

/-! ## What a member is given -/

/-- a member has been given every wanted event before the offset it will be given next -/
def Complete (wanted : ε → Prop) (s : St π ε σ) : Prop :=
  ∀ n m, s.members n = some m → ∀ p i e, i < next s n p → (s.log p)[i]? = some e → wanted e → Given m p i

omit [DecidableEq π] in
theorem next_of_reader {s : St π ε σ} {p : π} {rd : Reader} (h : s.reader p = some rd) (n : ℕ) :
    next s n p = if rd.member = n then rd.position else s.committed p := by
  simp [next, h]

omit [DecidableEq π] in
theorem next_of_none {s : St π ε σ} {p : π} (h : s.reader p = none) (n : ℕ) : next s n p = s.committed p := by
  simp [next, h]

omit [DecidableEq π] in
/-- a step that gives nobody anything, and takes nobody further -/
theorem Complete.of_next_le {wanted : ε → Prop} {s t : St π ε σ} (h : Complete wanted s) (hlog : t.log = s.log)
    (hmembers : ∀ n m, t.members n = some m → s.members n = some m)
    (hnext : ∀ n m p, t.members n = some m → next t n p ≤ next s n p) : Complete wanted t := by
  intro n m hm p i e hi he hwanted
  rw [hlog] at he
  exact h n m (hmembers n m hm) p i e (hi.trans_le (hnext n m p hm)) he hwanted

theorem complete_step {wanted : ε → Prop} {s : St π ε σ} {o : Op π ε} (hinv : Inv start consume s)
    (h : Complete wanted s) (hshared : Shared wanted s o) : Complete wanted (step start consume s o) := by
  rcases step_effect start consume s o with heq | he
  · rwa [heq]
  generalize step start consume s o = t at he
  cases he with
  | publish p e =>
    intro n m hm p' i e' hi he'
    -- the event before the offset was there already
    have hlt : i < (s.log p').length := hi.trans_le (next_le hinv n p')
    have hold := getElem?_publish (p := p) (e := e) (List.getElem?_eq_getElem hlt)
    obtain rfl := Option.some.inj (hold.symm.trans he')
    exact h n m hm p' i _ hi (List.getElem?_eq_getElem hlt)
  | @join n hnone =>
    intro n' m hm p i e hi he hwanted
    rcases update_cases hm with ⟨rfl, hnew⟩ | ⟨-, hm⟩
    · -- nothing is assigned to the new member
      have hnext : next s n' p = s.committed p := by
        cases hrd : s.reader p with
        | none => exact next_of_none hrd n'
        | some rd =>
          have hne : rd.member ≠ n' := fun heq => hinv.reading p rd hrd (heq ▸ hnone)
          rw [next_of_reader hrd, if_neg hne]
      have hi : i < next s n' p := hi
      exact absurd hwanted (hshared hnone p i e (hnext ▸ hi) he)
    · exact h n' m hm p i e hi he hwanted
  | leave n =>
    have hstays : ∀ n' m, update s.members n none n' = some m → n' ≠ n ∧ s.members n' = some m := by
      intro n' m hm
      rcases update_cases hm with ⟨-, hgone⟩ | hstay
      · cases hgone
      · exact hstay
    refine h.of_next_le rfl (fun n' m hm => (hstays n' m hm).2) fun n' m p hm => ?_
    cases hrd : s.reader p with
    | none => rw [next_of_none hrd, next_of_none (by simp [hrd])]
    | some rd =>
      by_cases hmember : rd.member = n
      · rw [next_of_reader hrd, if_neg (by rw [hmember]; exact (hstays n' m hm).1.symm),
          next_of_none (by simp [hrd, hmember])]
      · simp [next, hrd, Option.filter_some, hmember]
  | @assign p n m hfree hm =>
    refine h.of_next_le rfl (fun _ _ hm' => hm') fun n' _ p' _ => ?_
    rcases eq_or_ne p' p with rfl | hne
    · rw [next_of_none hfree, next_of_reader (update_self _ _ _)]
      split_ifs <;> exact le_rfl
    · simp [next, update_of_ne hne]
  | revoke p =>
    refine h.of_next_le rfl (fun _ _ hm => hm) fun n _ p' _ => ?_
    rcases eq_or_ne p' p with rfl | hne
    · rw [next_of_none (update_self _ _ _)]
      exact committed_le_next hinv n p'
    · simp [next, update_of_ne hne]
  | @poll p rd e m hrd he hm =>
    intro n' m' hm' p' i e' hi he' hwanted
    rcases update_cases hm' with ⟨rfl, hnew⟩ | ⟨hne, hm'⟩
    · obtain rfl := Option.some.inj hnew
      have hkeep : Given m p' i → Given ⟨m.read ++ [⟨p, rd.position, e⟩], consume m.state e⟩ p' i := by
        rintro ⟨d, hd, hgiven⟩
        exact ⟨d, List.mem_append_left _ hd, hgiven⟩
      rcases eq_or_ne p' p with rfl | hp
      · rw [next_of_reader (update_self _ _ _), if_pos rfl] at hi
        rcases Nat.lt_succ_iff_lt_or_eq.1 hi with hlt | rfl
        · apply hkeep
          exact h _ m hm p' i e' (by rwa [next_of_reader hrd, if_pos rfl]) he' hwanted
        · exact ⟨_, List.mem_append_right _ (List.mem_singleton_self _), rfl, rfl⟩
      · apply hkeep
        exact h _ m hm p' i e' (by simpa [next, update_of_ne hp] using hi) he' hwanted
    · refine h n' m' hm' p' i e' ?_ he' hwanted
      rcases eq_or_ne p' p with rfl | hp
      · rw [next_of_reader (update_self _ _ _), if_neg hne.symm] at hi
        rwa [next_of_reader hrd, if_neg hne.symm]
      · simpa [next, update_of_ne hp] using hi
  | @commit p rd hrd =>
    intro n m hm p' i e hi he hwanted
    rcases eq_or_ne p' p with rfl | hp
    · simp only [next, hrd, update_self, ite_self] at hi
      exact hshared rd hrd n m hm i e hi he hwanted
    · exact h n m hm p' i e (by simpa [next, update_of_ne hp] using hi) he hwanted

/-- **Groups.** Along steps that commit no wanted event past a member, a member that will not be given anything more has
been given every wanted event. -/
theorem given_run {wanted : ε → Prop} {ops : List (Op π ε)}
    (h : Along (step start consume) (Shared wanted) init ops) {n : ℕ} {m : Member π ε σ}
    (hm : (run (step start consume) init ops).members n = some m)
    (hdrained : Drained (run (step start consume) init ops) n) {p : π} {i : ℕ} {e : ε}
    (he : ((run (step start consume) init ops).log p)[i]? = some e) (hwanted : wanted e) : Given m p i := by
  have hrun := run_inv (I := fun s => Inv start consume s ∧ Complete wanted s)
    (fun s o hs hshared => ⟨inv_step s o hs.1, complete_step hs.1 hs.2 hshared⟩)
    ⟨inv_init, fun n m hm => by cases hm⟩ h
  have hlt : i < ((run (step start consume) init ops).log p).length := (List.getElem?_eq_some_iff.1 he).1
  exact hrun.2 n m hm p i e (hlt.trans_le (hdrained p)) he hwanted

end

end Concordia.Lib.ConsumerGroup
