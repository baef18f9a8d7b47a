/-
The fields of an HTTP message: a list of names and values, names compared without regard to case, a value often a list
with commas.

- `get`, `set`, `del`, `delAll`, with what each leaves of the values of a name.
- `entry_eq_iff`: what the first entry of a value is, once the blanks around it are taken off.
-/
import Mathlib.Data.List.DropRight
import Mathlib.Tactic.Common

namespace Concordia.Lib

/-- the fields in the order they arrive -/
abbrev Headers := List (String × String)

namespace Headers

def SameName (a b : String) : Prop := a.toList.map Char.toLower = b.toList.map Char.toLower

instance (a b : String) : Decidable (SameName a b) := inferInstanceAs (Decidable (_ = _))

variable {h : Headers} {a b v : String}

/-- the values of a name -/
def values (h : Headers) (name : String) : List String := (h.filter fun f => SameName f.1 name).map Prod.snd

/-- the first value, "" where there is none -/
def get (h : Headers) (name : String) : String := ((values h name).head?).getD ""

def del (h : Headers) (name : String) : Headers := h.filter fun f => ¬SameName f.1 name

/-- the one value of a name from now on -/
def set (h : Headers) (name v : String) : Headers := del h name ++ [(name, v)]

theorem values_congr (hab : SameName a b) : values h b = values h a := by
  unfold values
  congr 1
  refine List.filter_congr fun f _ => ?_
  exact decide_eq_decide.2 ⟨fun hf => hf.trans hab.symm, fun hf => hf.trans hab⟩

theorem values_append (g : Headers) : values (h ++ g) a = values h a ++ values g a := by
  simp [values, List.filter_append]

@[simp] theorem values_del_self : values (del h a) a = [] := by
  simp [values, del, List.filter_filter]

theorem values_del_of_ne (hne : ¬SameName b a) : values (del h b) a = values h a := by
  unfold values del
  rw [List.filter_filter]
  congr 1
  refine List.filter_congr fun f _ => ?_
  have hexcl : SameName f.1 a → ¬SameName f.1 b := fun ha hb => hne (hb.symm.trans ha)
  by_cases hf : SameName f.1 a
  · simp [hf, hexcl hf]
  · simp [hf]

@[simp] theorem values_set_self : values (set h a v) a = [v] := by
  rw [set, values_append, values_del_self]
  simp [values, SameName]

@[simp] theorem get_set_self : get (set h a v) a = v := by
  rw [get, values_set_self]
  rfl

theorem values_set_of_ne (hne : ¬SameName b a) : values (set h b v) a = values h a := by
  rw [set, values_append, values_del_of_ne hne]
  simp [values, hne]

theorem get_set_of_ne (hne : ¬SameName b a) : get (set h b v) a = get h a := by
  rw [get, values_set_of_ne hne, get]

/-- the fields without the given names -/
def delAll (h : Headers) (names : List String) : Headers := names.foldl del h

theorem values_delAll (h : Headers) (names : List String) (a : String) :
    values (delAll h names) a = if ∃ b ∈ names, SameName b a then [] else values h a := by
  induction names generalizing h with
  | nil => simp [delAll]
  | cons b names ih =>
    rw [delAll, List.foldl_cons, ← delAll, ih]
    by_cases hb : SameName b a
    · have hdel : values (del h b) a = [] := by
        rw [values_congr hb]
        exact values_del_self
      simp [hb, hdel]
    · rw [values_del_of_ne hb]
      simp [hb]

end Headers

/-! ## Values with commas -/

/-- the blanks taken off at both ends -/
def trim {α : Type*} (blank : α → Bool) (l : List α) : List α := (l.dropWhile blank).rdropWhile blank

/-- up to the first comma, the blanks around it taken off -/
def entry (blank : Char → Bool) (l : List Char) : List Char := trim blank (l.takeWhile (· ≠ ','))

section

variable {α : Type*} {blank : α → Bool}

theorem rdropWhile_append_of_all {post l : List α} (hpost : ∀ c ∈ post, blank c = true) :
    (l ++ post).rdropWhile blank = l.rdropWhile blank := by
  rw [List.rdropWhile, List.reverse_append, List.dropWhile_append_of_pos (by simpa using hpost), List.rdropWhile]

/-- a word between blanks is what remains without them -/
theorem trim_eq_iff {word l : List α} (hne : word ≠ []) (hword : ∀ c ∈ word, blank c = false) :
    trim blank l = word ↔
      ∃ pre post, l = pre ++ word ++ post ∧ (∀ c ∈ pre, blank c = true) ∧ ∀ c ∈ post, blank c = true := by
  refine ⟨?_, ?_⟩
  · intro h
    refine ⟨l.takeWhile blank, (l.dropWhile blank).rtakeWhile blank, ?_, ?_, ?_⟩
    · calc l = l.takeWhile blank ++ l.dropWhile blank := List.takeWhile_append_dropWhile.symm
        _ = l.takeWhile blank ++ (trim blank l ++ (l.dropWhile blank).rtakeWhile blank) := by
          rw [trim, List.rdropWhile_append_rtakeWhile]
        _ = l.takeWhile blank ++ word ++ (l.dropWhile blank).rtakeWhile blank := by rw [h, List.append_assoc]
    · exact fun c hc => List.mem_takeWhile_imp hc
    · exact fun c hc => List.mem_takeWhile_imp (List.mem_reverse.1 hc)
  · rintro ⟨pre, post, rfl, hpre, hpost⟩
    obtain ⟨c, cs, rfl⟩ := List.exists_cons_of_ne_nil hne
    have hc : ¬blank c = true := by rw [hword c List.mem_cons_self]; decide
    have hlast : (c :: cs).rdropWhile blank = c :: cs :=
      List.rdropWhile_eq_self_iff.2 fun hl => by rw [hword _ (List.getLast_mem hl)]; decide
    rw [trim, List.append_assoc, List.dropWhile_append_of_pos hpre, List.cons_append, List.dropWhile_cons_of_neg hc,
      ← List.cons_append, rdropWhile_append_of_all hpost, hlast]

end

variable {blank : Char → Bool}

/-- the first entry of a value is a word iff the value has nothing but blanks around it before the first comma -/
theorem entry_eq_iff {word l : List Char} (hcomma : blank ',' = false) (hne : word ≠ [])
    (hword : ∀ c ∈ word, blank c = false ∧ c ≠ ',') :
    entry blank l = word ↔ ∃ pre post rest, l = pre ++ word ++ post ++ rest ∧ (∀ c ∈ pre, blank c = true) ∧
      (∀ c ∈ post, blank c = true) ∧ (rest = [] ∨ ∃ r, rest = ',' :: r) := by
  have hplain : ∀ {c}, blank c = true → c ≠ ',' := by
    rintro c hc rfl
    exact absurd hc (by rw [hcomma]; decide)
  rw [entry, trim_eq_iff hne fun c hc => (hword c hc).1]
  refine ⟨?_, ?_⟩
  · rintro ⟨pre, post, hl, hpre, hpost⟩
    refine ⟨pre, post, l.dropWhile (· ≠ ','), ?_, hpre, hpost, ?_⟩
    · rw [← hl, List.takeWhile_append_dropWhile]
    · cases hrest : l.dropWhile (· ≠ ',') with
      | nil => exact .inl rfl
      | cons c r =>
        have := List.head?_dropWhile_not (fun x : Char => decide (x ≠ ',')) l
        rw [hrest] at this
        obtain rfl : c = ',' := by simpa using this
        exact .inr ⟨r, rfl⟩
  · rintro ⟨pre, post, rest, rfl, hpre, hpost, hrest⟩
    refine ⟨pre, post, ?_, hpre, hpost⟩
    have hall : ∀ c ∈ pre ++ word ++ post, decide (c ≠ ',') = true := by
      intro c hc
      rw [List.mem_append, List.mem_append] at hc
      obtain (hc | hc) | hc := hc
      · exact decide_eq_true (hplain (hpre c hc))
      · exact decide_eq_true (hword c hc).2
      · exact decide_eq_true (hplain (hpost c hc))
    rw [List.takeWhile_append_of_pos hall]
    rcases hrest with rfl | ⟨r, rfl⟩
    · simp
    · simp

end Concordia.Lib
