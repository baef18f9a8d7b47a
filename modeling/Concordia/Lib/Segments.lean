/-
Contiguous parts of a list in the order of its keys, grown at the front by pages that end before a cursor.

- `infix_iff`: a part is contiguous exactly if it is in the list, in its order and without gaps.
- `pageBefore_split`: the page before an entry ends in front of it.
- `prepend_page`: the page before the first entry of a contiguous part makes a contiguous part with it.
- `head_of_prepend_page`: the page before an entry continues no other part.
-/
import Mathlib.Tactic

namespace Concordia.Lib.Segments

variable {ρ κ : Type*} [LinearOrder κ] {key : ρ → κ} {l m page : List ρ}

/-- in the order of the keys, none twice -/
def Ascending (key : ρ → κ) (l : List ρ) : Prop := l.Pairwise fun a b => key a < key b

/-- the last `n` entries -/
def latest (n : ℕ) (l : List ρ) : List ρ := l.drop (l.length - n)

theorem latest_suffix (n : ℕ) (l : List ρ) : latest n l <:+ l := List.drop_suffix _ _

theorem take_reverse_reverse (n : ℕ) (l : List ρ) : (l.reverse.take n).reverse = latest n l := by
  rw [latest, List.take_reverse, List.reverse_reverse]

theorem Ascending.sublist (h : Ascending key l) (hm : m.Sublist l) : Ascending key m := List.Pairwise.sublist hm h

theorem Ascending.nodup (h : Ascending key l) : (l.map key).Nodup := by
  rw [List.nodup_iff_pairwise_ne, List.pairwise_map]
  exact List.Pairwise.imp (fun hab => hab.ne) h

/-- in front of an entry the keys are smaller, behind it they are greater -/
theorem Ascending.split {a b : List ρ} {x y : ρ} (h : Ascending key (a ++ x :: b)) (hy : y ∈ a ++ x :: b) :
    (y ∈ a ↔ key y < key x) ∧ (y ∈ b ↔ key x < key y) := by
  obtain ⟨-, hright, hcross⟩ := List.pairwise_append.1 h
  have hleft : ∀ z ∈ a, key z < key x := fun z hz => hcross z hz x List.mem_cons_self
  have hbehind : ∀ z ∈ b, key x < key z := fun z hz => List.rel_of_pairwise_cons hright hz
  refine ⟨⟨hleft y, fun hlt => ?_⟩, ⟨hbehind y, fun hlt => ?_⟩⟩
  · rcases List.mem_append.1 hy with hya | hyb
    · exact hya
    · rcases List.mem_cons.1 hyb with rfl | hyb
      · exact absurd hlt (lt_irrefl _)
      · exact absurd hlt (hbehind y hyb).asymm
  · rcases List.mem_append.1 hy with hya | hyb
    · exact absurd hlt (hleft y hya).asymm
    · rcases List.mem_cons.1 hyb with rfl | hyb
      · exact absurd hlt (lt_irrefl _)
      · exact hyb

/-- what comes next after an entry is at most what comes next after it in another reading of the list -/
theorem Ascending.next_le {a b c d : List ρ} {x y z : ρ} (h : Ascending key l) (hx : l = a ++ z :: x :: b)
    (hy : l = c ++ z :: y :: d) : key x ≤ key y := by
  have hyl : y ∈ a ++ z :: x :: b := by
    rw [← hx, hy]
    simp
  have hzy : key z < key y := by
    rw [hy] at h
    exact (h.split (by simp)).2.1 List.mem_cons_self
  rw [hx] at h
  rcases List.mem_cons.1 ((h.split hyl).2.2 hzy) with rfl | hmem
  · exact le_rfl
  · exact (List.rel_of_pairwise_cons (List.pairwise_append.1 h).2.1.of_cons hmem).le

theorem Ascending.eq_of_key (h : Ascending key l) {x y : ρ} (hx : x ∈ l) (hy : y ∈ l) (hk : key x = key y) : x = y :=
  List.inj_on_of_nodup_map h.nodup hx hy hk

theorem filter_before {a b : List ρ} {x : ρ} (h : Ascending key (a ++ x :: b)) :
    (a ++ x :: b).filter (fun y => key y < key x) = a := by
  have hleft : a.filter (fun y => key y < key x) = a := by
    apply List.filter_eq_self.2
    intro y hy
    exact decide_eq_true ((h.split (List.mem_append_left _ hy)).1.1 hy)
  have hright : b.filter (fun y => key y < key x) = [] := by
    apply List.filter_eq_nil_iff.2
    intro y hy
    have hlt := (h.split (List.mem_append_right _ (List.mem_cons_of_mem _ hy))).2.1 hy
    simpa using hlt.le
  rw [List.filter_append, hleft, List.filter_cons_of_neg (by simp), hright, List.append_nil]

/-! ## Contiguous parts -/

/-- without gaps, in the keys of the list -/
def Gapless (key : ρ → κ) (l m : List ρ) : Prop :=
  ∀ x ∈ l, (∃ a ∈ m, key a ≤ key x) → (∃ b ∈ m, key x ≤ key b) → x ∈ m

theorem gapless_of_infix (h : Ascending key l) (hm : m <:+: l) : Gapless key l m := by
  obtain ⟨s, t, rfl⟩ := hm
  intro x hx hbelow habove
  obtain ⟨a, ha, hax⟩ := hbelow
  obtain ⟨b, hb, hxb⟩ := habove
  obtain ⟨hst, -, hcross⟩ := List.pairwise_append.1 h
  rcases List.mem_append.1 hx with hx | hx
  · rcases List.mem_append.1 hx with hx | hx
    · exact absurd ((List.pairwise_append.1 hst).2.2 x hx a ha) hax.not_gt
    · exact hx
  · exact absurd (hcross b (List.mem_append_right _ hb) x hx) hxb.not_gt

theorem Gapless.tail {x : ρ} (h : Gapless key l (x :: m)) (hasc : Ascending key (x :: m)) : Gapless key l m := by
  intro y hy hbelow habove
  obtain ⟨a, ha, hay⟩ := hbelow
  obtain ⟨b, hb, hyb⟩ := habove
  have hmem := h y hy ⟨a, List.mem_cons_of_mem _ ha, hay⟩ ⟨b, List.mem_cons_of_mem _ hb, hyb⟩
  rcases List.mem_cons.1 hmem with rfl | hmem
  · exact absurd (List.rel_of_pairwise_cons hasc ha) hay.not_gt
  · exact hmem

theorem infix_of_gapless (h : Ascending key l) (hsub : m ⊆ l) (hasc : Ascending key m) (hgap : Gapless key l m) :
    m <:+: l := by
  induction m with
  | nil => exact List.nil_infix
  | cons x m ih =>
    obtain ⟨hx, hsub⟩ := List.cons_subset.1 hsub
    obtain ⟨s, t, hl⟩ := ih hsub hasc.of_cons (hgap.tail hasc)
    cases m with
    | nil =>
      obtain ⟨s, t, rfl⟩ := List.append_of_mem hx
      exact ⟨s, t, by simp⟩
    | cons y m =>
      have hl : l = s ++ y :: (m ++ t) := by simp [← hl]
      have hxy : key x < key y := List.rel_of_pairwise_cons hasc List.mem_cons_self
      have hxs : x ∈ s := ((hl ▸ h).split (hl ▸ hx)).1.2 hxy
      obtain ⟨s, between, rfl⟩ := List.append_of_mem hxs
      cases between with
      | nil => exact ⟨s, t, by simp [hl]⟩
      | cons z between =>
        -- an entry between the first two of the part is a gap
        exfalso
        have hz : z ∈ l := by simp [hl]
        have hxz : key x < key z := by
          have hsplit : Ascending key (s ++ x :: (z :: between ++ y :: (m ++ t))) := by simpa [hl] using h
          exact (hsplit.split (by simp)).2.1 List.mem_cons_self
        have hzy : key z < key y := ((hl ▸ h).split (hl ▸ hz)).1.1 (by simp)
        have hmem := hgap z hz ⟨x, List.mem_cons_self, hxz.le⟩ ⟨y, by simp, hzy.le⟩
        rcases List.mem_cons.1 hmem with rfl | hmem
        · exact lt_irrefl _ hxz
        · rcases List.mem_cons.1 hmem with rfl | hmem
          · exact lt_irrefl _ hzy
          · exact (List.rel_of_pairwise_cons hasc.of_cons hmem).asymm hzy

theorem infix_iff (h : Ascending key l) : m <:+: l ↔ m ⊆ l ∧ Ascending key m ∧ Gapless key l m :=
  ⟨fun hm => ⟨hm.subset, h.sublist hm.sublist, gapless_of_infix h hm⟩,
    fun hm => infix_of_gapless h hm.1 hm.2.1 hm.2.2⟩

/-! ## Pages -/

/-- the page before a cursor: the last `n` entries with a smaller key, of all entries without a cursor -/
def pageBefore (key : ρ → κ) (n : ℕ) (before : Option κ) (l : List ρ) : List ρ :=
  latest n (l.filter fun x => before.all (key x < ·))

theorem pageBefore_none (n : ℕ) (l : List ρ) : pageBefore key n none l = latest n l := by simp [pageBefore]

theorem pageBefore_split {a b : List ρ} {x : ρ} (h : Ascending key (a ++ x :: b)) (n : ℕ) :
    pageBefore key n (some (key x)) (a ++ x :: b) = latest n a := congrArg (latest n) (filter_before h)

theorem pageBefore_subset (n : ℕ) (before : Option κ) (l : List ρ) : pageBefore key n before l ⊆ l :=
  fun _ hx => List.mem_of_mem_filter ((latest_suffix n _).subset hx)

/-- an entry behind all others is on no page before one of them -/
theorem pageBefore_snoc {x y : ρ} (hx : x ∈ l) (hy : ∀ z ∈ l, key z < key y) (n : ℕ) :
    pageBefore key n (some (key x)) (l ++ [y]) = pageBefore key n (some (key x)) l := by
  have hout : [y].filter (fun z => (some (key x)).all (key z < ·)) = [] := by simpa using (hy x hx).le
  rw [pageBefore, List.filter_append, hout, List.append_nil, pageBefore]

/-- the page before the first entry of a contiguous part makes a contiguous part with it -/
theorem prepend_page (h : Ascending key l) {x : ρ} (hm : x :: m <:+: l) (n : ℕ) :
    pageBefore key n (some (key x)) l ++ x :: m <:+: l := by
  obtain ⟨s, t, rfl⟩ := hm
  have hl : s ++ x :: m ++ t = s ++ x :: (m ++ t) := by simp
  rw [hl] at h ⊢
  rw [pageBefore_split h]
  obtain ⟨front, hfront⟩ := latest_suffix n s
  exact ⟨front, t, by rw [← List.append_assoc, hfront]; simp⟩

/-- a page before an entry continues only at that entry -/
theorem head_of_prepend_page (h : Ascending key l) {x y : ρ} (hx : x ∈ l) {n : ℕ}
    (hpage : pageBefore key n (some (key x)) l ≠ []) (hm : pageBefore key n (some (key x)) l ++ y :: m <:+: l) : y = x := by
  have hy : y ∈ l := hm.subset (by simp)
  obtain ⟨a, b, hl⟩ := List.append_of_mem hx
  have heq : pageBefore key n (some (key x)) l = latest n a := by
    rw [hl]
    exact pageBefore_split (hl ▸ h) n
  rw [heq] at hpage hm
  obtain ⟨init, z, hz⟩ := (List.eq_nil_or_concat' _).resolve_left hpage
  obtain ⟨front, hfront⟩ := latest_suffix n a
  obtain ⟨s, t, hst⟩ := hm
  have hx' : l = (front ++ init) ++ z :: x :: b := by rw [hl, ← hfront, hz]; simp
  have hy' : l = (s ++ init) ++ z :: y :: (m ++ t) := by rw [← hst, hz]; simp
  exact h.eq_of_key hy hx (le_antisymm (h.next_le hy' hx') (h.next_le hx' hy'))

end Concordia.Lib.Segments
