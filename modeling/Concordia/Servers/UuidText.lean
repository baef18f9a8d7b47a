/-
The text of a UUID (`UUID.toString` and `UUID.fromString` of java.util, `Display` of the uuid crate): 32 hexadecimal
digits in five groups.

- `fromString_toString`: a UUID that is written and read back is itself.
- `toString_inj`: two UUIDs are written alike only if they are the same.

A UUID is a number below 2^128; the statements say so, since the model's `Uuid` is any number.
-/
import Concordia.Servers.CheckPerm

namespace Concordia.Servers

/-! ## Groups of digits -/

theorem hexDigit_digitChar : ∀ d < 16, hexDigit (Nat.digitChar d) = some d := by decide

theorem digitChar_plain : ∀ d < 16, Nat.digitChar d ≠ '-' ∧ Nat.digitChar d ≠ '+' ∧ (Nat.digitChar d).toNat < 128 := by
  decide

theorem mem_hexDigits {w n : ℕ} {c : Char} (h : c ∈ hexDigits w n) : ∃ d < 16, c = Nat.digitChar d := by
  induction w generalizing n with
  | zero => cases h
  | succ w ih =>
    rcases List.mem_append.1 h with h | h
    · exact ih h
    · exact ⟨n % 16, Nat.mod_lt _ (by decide), List.mem_singleton.1 h⟩

@[simp] theorem length_hexDigits (w n : ℕ) : (hexDigits w n).length = w := by
  induction w generalizing n with
  | zero => rfl
  | succ w ih => rw [hexDigits, List.length_append, ih, List.length_singleton]

theorem noDash_hexDigits (w n : ℕ) : '-' ∉ hexDigits w n := by
  intro h
  obtain ⟨d, hd, heq⟩ := mem_hexDigits h
  exact (digitChar_plain d hd).1 heq.symm

theorem parseDigits_append (part : List Char) (i v : ℕ) (as bs : List Char) :
    parseDigits part i v (as ++ bs) = (parseDigits part i v as).bind fun v' => parseDigits part (i + as.length) v' bs := by
  induction as generalizing i v with
  | nil => rfl
  | cons c as ih =>
    rw [List.cons_append, parseDigits, parseDigits]
    cases hexDigit c with
    | none => rfl
    | some d =>
      simp only
      split_ifs
      · rw [ih, List.length_cons, Nat.add_right_comm, Nat.add_assoc]
      · rfl

/-- digits are read as the number they write -/
theorem parseDigits_hexDigits (part : List Char) {w n : ℕ} (hw : w < 16) (i : ℕ) :
    parseDigits part i 0 (hexDigits w n) = .ok (n % 16 ^ w) := by
  induction w generalizing n with
  | zero => simp [hexDigits, parseDigits, Nat.mod_one]
  | succ w ih =>
    have hdigit := hexDigit_digitChar (n % 16) (Nat.mod_lt _ (by decide))
    have hvalue : n / 16 % 16 ^ w * 16 + n % 16 = n % 16 ^ (w + 1) := by
      rw [Nat.pow_succ', Nat.mod_mul]
      omega
    have hsmall : n % 16 ^ (w + 1) < 2 ^ 63 := by
      calc n % 16 ^ (w + 1) < 16 ^ (w + 1) := Nat.mod_lt _ (by positivity)
        _ ≤ 16 ^ 15 := Nat.pow_le_pow_right (by decide) (by omega)
        _ < 2 ^ 63 := by decide
    rw [hexDigits, parseDigits_append, ih (by omega)]
    simp only [Except.bind, parseDigits, hdigit, hvalue]
    rw [if_pos hsmall]

theorem parseLong_hexDigits {w n : ℕ} (hw : w + 1 < 16) : parseLong (hexDigits (w + 1) n) = .ok (n % 16 ^ (w + 1)) := by
  have hdigits := parseDigits_hexDigits (hexDigits (w + 1) n) (n := n) hw 0
  have hplus : '+' ∉ hexDigits (w + 1) n := by
    intro h
    obtain ⟨d, hd, heq⟩ := mem_hexDigits h
    exact (digitChar_plain d hd).2.1 heq.symm
  have hlen := length_hexDigits (w + 1) n
  generalize hexDigits (w + 1) n = cs at hdigits hplus hlen
  unfold parseLong
  split
  · cases hlen
  · simp at hplus
  · simp at hplus
  · exact hdigits

/-! ## The whole text -/

theorem splitOn_toString (id : Uuid) : (Uuid.toString id).toList.splitOn '-' =
    [hexDigits 8 (id / 2 ^ 96), hexDigits 4 (id / 2 ^ 80), hexDigits 4 (id / 2 ^ 64), hexDigits 4 (id / 2 ^ 48),
      hexDigits 12 id] := by
  rw [Uuid.toString, String.toList_ofList]
  simp only [List.append_assoc, List.cons_append]
  rw [List.splitOn_append_cons_self_of_not_mem (noDash_hexDigits _ _),
    List.splitOn_append_cons_self_of_not_mem (noDash_hexDigits _ _),
    List.splitOn_append_cons_self_of_not_mem (noDash_hexDigits _ _),
    List.splitOn_append_cons_self_of_not_mem (noDash_hexDigits _ _), List.splitOn_eq_singleton (noDash_hexDigits _ _)]

theorem mem_toString {id : Uuid} {c : Char} (h : c ∈ (Uuid.toString id).toList) : c.toNat < 128 := by
  have hdigit : ∀ w n, c ∈ hexDigits w n → c.toNat < 128 := by
    intro w n hc
    obtain ⟨d, hd, rfl⟩ := mem_hexDigits hc
    exact (digitChar_plain d hd).2.2
  rw [Uuid.toString, String.toList_ofList] at h
  simp only [List.mem_append, List.mem_cons] at h
  rcases h with (((h | rfl | h) | rfl | h) | rfl | h) | rfl | h
  all_goals first | exact hdigit _ _ h | decide

theorem utf16Length_toString (id : Uuid) : utf16Length (Uuid.toString id) = 36 := by
  have hone : (Uuid.toString id).toList.map (fun c => if c.toNat < 0x10000 then 1 else 2) =
      (Uuid.toString id).toList.map fun _ => 1 := by
    apply List.map_congr_left
    intro c hc
    rw [if_pos (lt_trans (mem_toString hc) (by decide))]
  rw [utf16Length, hone, List.map_const', List.sum_replicate, Uuid.toString, String.toList_ofList]
  simp

/-- five groups of digits make the number -/
theorem groups_eq (n : ℕ) (h : n < 2 ^ 128) :
    (((n / 2 ^ 96 % 16 ^ 8 % 2 ^ 32 * 2 ^ 16 + n / 2 ^ 80 % 16 ^ 4 % 2 ^ 16) * 2 ^ 16 + n / 2 ^ 64 % 16 ^ 4 % 2 ^ 16) *
      2 ^ 16 + n / 2 ^ 48 % 16 ^ 4 % 2 ^ 16) * 2 ^ 48 + n % 16 ^ 12 % 2 ^ 48 = n := by
  omega

theorem fromString_toString {id : Uuid} (h : id < 2 ^ 128) : Uuid.fromString (Uuid.toString id) = .ok id := by
  rw [Uuid.fromString, utf16Length_toString, if_neg (by decide), splitOn_toString]
  simp only [parseLong_hexDigits (w := 7) (by decide), parseLong_hexDigits (w := 3) (by decide),
    parseLong_hexDigits (w := 11) (by decide), bind, Except.bind, pure, Except.pure, Except.ok.injEq]
  exact groups_eq id h

theorem toString_inj {id id' : Uuid} (h : id < 2 ^ 128) (h' : id' < 2 ^ 128)
    (heq : Uuid.toString id = Uuid.toString id') : id = id' := by
  have hread := fromString_toString h
  rw [heq, fromString_toString h'] at hread
  exact (Except.ok.inj hread).symm

theorem toString_not_blank (id : Uuid) : isBlank (Uuid.toString id) = false := by
  have hdash : '-' ∈ (Uuid.toString id).toList := by simp [Uuid.toString]
  rw [isBlank, List.all_eq_false]
  exact ⟨'-', hdash, by decide⟩

end Concordia.Servers
