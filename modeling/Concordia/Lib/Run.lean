/-
Runs of a deterministic step function. A trace is a list of operations; the environment's choices (which request,
which interleaving, what a database answers) are part of the operation, so a system is one total `step`.

- `run`: the state after a whole trace; `run_append`, `run_snoc`.
- `Along C`: every step of the trace meets `C`, judged in the state it is taken from. `along_iff_split` reads it as a
  statement about every prefix.
- `run_inv`: an invariant preserved by every step that meets `C` holds at the end of every trace along `C`.
- `always_iff_along`: a property that a step keeps exactly if it meets `C` always holds exactly along `C`;
  `always_iff_along_of` for the traces along another condition.
- `along_congr`: conditions that agree under an invariant hold along the same traces.
- `run_rel`: a reflexive and transitive relation kept by every step relates the two ends of a run.
- `run_view`, `along_view`: a part of a system that only some of its operations concern runs by itself.
- `onset`: a property that fails at the start and holds at the end has a last step that made it true.
- `holds_iff_since`: a property that some steps set, others clear and the rest leave alone holds at the end exactly if a
  step set it and none has cleared it since; `since_of_holds` and `holds_of_since` are its directions, the second for the
  traces along a condition.
-/
import Mathlib.Tactic

namespace Concordia.Lib

variable {σ α : Type*}

/-- run a whole trace -/
def run (step : σ → α → σ) (s : σ) (ops : List α) : σ := ops.foldl step s

@[simp] theorem run_nil (step : σ → α → σ) (s : σ) : run step s [] = s := rfl

theorem run_cons (step : σ → α → σ) (s : σ) (o : α) (ops : List α) :
    run step s (o :: ops) = run step (step s o) ops := rfl

theorem run_append (step : σ → α → σ) (s : σ) (a b : List α) :
    run step s (a ++ b) = run step (run step s a) b := by
  simp [run, List.foldl_append]

theorem run_snoc (step : σ → α → σ) (s : σ) (ops : List α) (o : α) :
    run step s (ops ++ [o]) = step (run step s ops) o := by
  simp [run, List.foldl_append]

/-! ## Traces whose steps meet a condition -/

/-- every step of the trace meets `C`, judged in the state it is taken from -/
def Along (step : σ → α → σ) (C : σ → α → Prop) : σ → List α → Prop
  | _, [] => True
  | s, o :: ops => C s o ∧ Along step C (step s o) ops

instance decidableAlong (step : σ → α → σ) (C : σ → α → Prop) [∀ s o, Decidable (C s o)] :
    ∀ s ops, Decidable (Along step C s ops)
  | _, [] => .isTrue trivial
  | s, _ :: ops => @instDecidableAnd _ _ _ (decidableAlong step C (step s _) ops)

theorem along_append {step : σ → α → σ} {C : σ → α → Prop} {s : σ} {a b : List α} :
    Along step C s (a ++ b) ↔ Along step C s a ∧ Along step C (run step s a) b := by
  induction a generalizing s with
  | nil => simp [Along]
  | cons o a ih => simp only [List.cons_append, Along, run_cons, ih, and_assoc]

/-- a trace is along `C` iff the operation after each of its prefixes meets `C` in the state that prefix reaches -/
theorem along_iff_split {step : σ → α → σ} {C : σ → α → Prop} {s : σ} {ops : List α} :
    Along step C s ops ↔ ∀ a o b, ops = a ++ o :: b → C (run step s a) o := by
  refine ⟨?_, ?_⟩
  · rintro h a o b rfl
    rw [along_append] at h
    exact h.2.1
  · intro h
    induction ops generalizing s with
    | nil => trivial
    | cons o ops ih =>
      refine ⟨h [] o ops rfl, ih ?_⟩
      intro a o' b hab
      exact h (o :: a) o' b (by rw [hab]; rfl)

theorem Along.mono {step : σ → α → σ} {C D : σ → α → Prop} {s : σ} {ops : List α} (hCD : ∀ s o, C s o → D s o)
    (h : Along step C s ops) : Along step D s ops := by
  rw [along_iff_split] at h ⊢
  exact fun a o b hab => hCD _ _ (h a o b hab)

theorem along_and {step : σ → α → σ} {C D : σ → α → Prop} {s : σ} {ops : List α} (hC : Along step C s ops)
    (hD : Along step D s ops) : Along step (fun s o => C s o ∧ D s o) s ops := by
  rw [along_iff_split] at *
  exact fun a o b hab => ⟨hC a o b hab, hD a o b hab⟩

/-- a condition on the operations alone -/
theorem along_of_mem {step : σ → α → σ} {P : α → Prop} {s : σ} {ops : List α} (h : ∀ o ∈ ops, P o) :
    Along step (fun _ => P) s ops := by
  rw [along_iff_split]
  rintro a o b rfl
  exact h o (by simp)

/-! ## Invariants -/

/-- **Run rule.** An invariant that every step meeting `C` preserves holds at the end of every trace along `C`. -/
theorem run_inv {step : σ → α → σ} {C : σ → α → Prop} {I : σ → Prop} (hstep : ∀ s o, I s → C s o → I (step s o))
    {s : σ} {ops : List α} (h0 : I s) (hC : Along step C s ops) : I (run step s ops) := by
  induction ops generalizing s with
  | nil => exact h0
  | cons o ops ih => exact ih (hstep s o h0 hC.1) hC.2

/-- two conditions that agree wherever an invariant holds, the second of them keeping it, hold along the same traces -/
theorem along_congr {step : σ → α → σ} {C D : σ → α → Prop} {I : σ → Prop} (hiff : ∀ s o, I s → (C s o ↔ D s o))
    (hstep : ∀ s o, I s → D s o → I (step s o)) {s : σ} (h0 : I s) (ops : List α) :
    Along step C s ops ↔ Along step D s ops := by
  induction ops generalizing s with
  | nil => exact Iff.rfl
  | cons o ops ih =>
    simp only [Along, hiff s o h0]
    exact and_congr_right fun hD => ih (hstep s o h0 hD)

/-- **Always.** In a trace along `H`, a property that a step keeps exactly if it meets `C` holds in every state exactly if
the trace is along `C`. -/
theorem always_iff_along_of {step : σ → α → σ} {H C : σ → α → Prop} {I P : σ → Prop}
    (hiff : ∀ s o, I s → P s → H s o → (P (step s o) ↔ C s o))
    (hstep : ∀ s o, I s → P s → H s o → C s o → I (step s o)) {s : σ} (hI : I s) (hP : P s) {ops : List α}
    (hH : Along step H s ops) : (∀ a, a <+: ops → P (run step s a)) ↔ Along step C s ops := by
  induction ops generalizing s with
  | nil => exact ⟨fun _ => trivial, fun _ a ha => by rw [List.prefix_nil.1 ha]; exact hP⟩
  | cons o ops ih =>
    have hhead : ∀ a, a <+: ops → o :: a <+: o :: ops := fun a ha => List.cons_prefix_cons.2 ⟨rfl, ha⟩
    obtain ⟨hHo, hHrest⟩ := hH
    refine ⟨?_, ?_⟩
    · intro h
      have hfirst : P (step s o) := h [o] (hhead [] (List.nil_prefix))
      have hC : C s o := (hiff s o hI hP hHo).1 hfirst
      exact ⟨hC, (ih (hstep s o hI hP hHo hC) hfirst hHrest).1 fun a ha => h (o :: a) (hhead a ha)⟩
    · rintro ⟨hC, hrest⟩ a ha
      cases a with
      | nil => exact hP
      | cons o' a =>
        obtain ⟨rfl, htail⟩ := List.cons_prefix_cons.1 ha
        exact (ih (hstep s o' hI hP hHo hC) ((hiff s o' hI hP hHo).2 hC) hHrest).2 hrest a htail

theorem always_iff_along {step : σ → α → σ} {C : σ → α → Prop} {I P : σ → Prop}
    (hiff : ∀ s o, I s → P s → (P (step s o) ↔ C s o)) (hstep : ∀ s o, I s → P s → C s o → I (step s o)) {s : σ} (hI : I s)
    (hP : P s) (ops : List α) : (∀ a, a <+: ops → P (run step s a)) ↔ Along step C s ops :=
  always_iff_along_of (H := fun _ _ => True) (fun s o hI hP _ => hiff s o hI hP) (fun s o hI hP _ => hstep s o hI hP) hI hP
    (along_of_mem fun _ _ => trivial)

/-- the run rule when every step preserves the invariant -/
theorem run_inv' {step : σ → α → σ} {I : σ → Prop} (hstep : ∀ s o, I s → I (step s o)) {s : σ} (h0 : I s)
    (ops : List α) : I (run step s ops) := by
  induction ops generalizing s with
  | nil => exact h0
  | cons o ops ih => exact ih (hstep s o h0)

/-- a reflexive and transitive relation that every step keeps relates the two ends of a run -/
theorem run_rel {step : σ → α → σ} {R : σ → σ → Prop} (hrefl : ∀ s, R s s) (htrans : ∀ s t u, R s t → R t u → R s u)
    (hstep : ∀ s o, R s (step s o)) (s : σ) (ops : List α) : R s (run step s ops) := by
  induction ops generalizing s with
  | nil => exact hrefl s
  | cons o ops ih => exact htrans _ _ _ (hstep s o) (ih _)

/-! ## Parts of a system -/

section

variable {τ β : Type*} {step : σ → α → σ} {part : τ → β → τ} {view : σ → τ} {own : α → Option β}

/-- **Views.** A part that each operation either concerns, as an operation of the part, or leaves alone, runs by itself. -/
theorem run_view (hview : ∀ s o, view (step s o) = ((own o).map (part (view s))).getD (view s)) (s : σ) (ops : List α) :
    view (run step s ops) = run part (view s) (ops.filterMap own) := by
  induction ops generalizing s with
  | nil => rfl
  | cons o ops ih =>
    rw [run_cons, ih, hview, List.filterMap_cons]
    cases own o with
    | none => rfl
    | some b => exact (run_cons part (view s) b _).symm

/-- a condition on a part's own operations -/
theorem along_view (hview : ∀ s o, view (step s o) = ((own o).map (part (view s))).getD (view s)) {C : τ → β → Prop}
    {s : σ} {ops : List α} (h : Along step (fun s o => ∀ b ∈ own o, C (view s) b) s ops) :
    Along part C (view s) (ops.filterMap own) := by
  induction ops generalizing s with
  | nil => trivial
  | cons o ops ih =>
    have hrest := ih h.2
    rw [hview] at hrest
    rw [List.filterMap_cons]
    cases hown : own o with
    | none =>
      rw [hown] at hrest
      exact hrest
    | some b =>
      rw [hown] at hrest
      exact ⟨h.1 b hown, hrest⟩

end

/-- **Onset.** A property that fails at the start and holds at the end of a run was made true by some step and has held
ever since. -/
theorem onset {step : σ → α → σ} {P : σ → Prop} {s : σ} {ops : List α} (h0 : ¬ P s) (h1 : P (run step s ops)) :
    ∃ a o b, ops = a ++ o :: b ∧ ¬ P (run step s a) ∧ ∀ c d, b = c ++ d → P (run step s (a ++ o :: c)) := by
  induction ops using List.reverseRecOn with
  | nil => exact absurd h1 h0
  | append_singleton ops o ih =>
    by_cases hP : P (run step s ops)
    · -- it already held before the last step: the onset of the shorter run
      obtain ⟨a, o', b, rfl, hna, hall⟩ := ih hP
      refine ⟨a, o', b ++ [o], by simp, hna, ?_⟩
      intro c d hcd
      rcases List.eq_nil_or_concat' d with rfl | ⟨d', x, rfl⟩
      · rw [List.append_nil] at hcd
        rw [← hcd, ← List.cons_append, ← List.append_assoc]; exact h1
      · rw [← List.append_assoc] at hcd
        exact hall c d' (List.append_inj_left' hcd rfl)
    · refine ⟨ops, o, [], rfl, hP, ?_⟩
      intro c d hcd
      obtain ⟨rfl, rfl⟩ := List.append_eq_nil_iff.1 hcd.symm
      exact h1

/-- some step of the trace set it, and no later one cleared it -/
def Since (step : σ → α → σ) (sets clears : σ → α → Prop) (s : σ) (ops : List α) : Prop :=
  ∃ a o b, ops = a ++ o :: b ∧ sets (run step s a) o ∧ Along step (fun s o => ¬ clears s o) (run step s (a ++ [o])) b

theorem since_concat {step : σ → α → σ} {sets clears : σ → α → Prop} {s : σ} {ops : List α} {o : α} :
    Since step sets clears s (ops ++ [o]) ↔
      sets (run step s ops) o ∨ Since step sets clears s ops ∧ ¬ clears (run step s ops) o := by
  refine ⟨?_, ?_⟩
  · rintro ⟨a, o', b, hab, hset, hclear⟩
    rcases List.eq_nil_or_concat' b with rfl | ⟨b', x, rfl⟩
    · obtain ⟨rfl, rfl⟩ := List.append_inj' hab rfl |>.imp_right List.singleton_inj.1
      exact .inl hset
    · have hsplit : ops ++ [o] = (a ++ o' :: b') ++ [x] := by rw [hab]; simp
      obtain ⟨rfl, rfl⟩ := List.append_inj' hsplit rfl |>.imp_right List.singleton_inj.1
      rw [along_append] at hclear
      refine .inr ⟨⟨a, o', b', rfl, hset, hclear.1⟩, ?_⟩
      have hlast := hclear.2.1
      rwa [← run_append, List.append_assoc, List.singleton_append] at hlast
  · rintro (hset | ⟨⟨a, o', b, rfl, hset, hclear⟩, hlast⟩)
    · exact ⟨ops, o, [], rfl, hset, trivial⟩
    · refine ⟨a, o', b ++ [o], by simp, hset, along_append.2 ⟨hclear, ?_, trivial⟩⟩
      rwa [← run_append, List.append_assoc, List.singleton_append]

/-- what holds at the end of a run, and not at its start, was set and not cleared since, if no step brings it about
otherwise -/
theorem since_of_holds {step : σ → α → σ} {I P : σ → Prop} {sets clears : σ → α → Prop}
    (hinv : ∀ s o, I s → I (step s o)) (hstep : ∀ s o, I s → P (step s o) → sets s o ∨ P s ∧ ¬ clears s o) {s : σ}
    (hI : I s) (h0 : ¬ P s) (ops : List α) (h : P (run step s ops)) : Since step sets clears s ops := by
  induction ops using List.reverseRecOn with
  | nil => exact absurd h h0
  | append_singleton ops o ih =>
    rw [run_snoc] at h
    rw [since_concat]
    exact (hstep _ o (run_inv' hinv hI ops) h).imp_right fun ⟨hp, hclear⟩ => ⟨ih hp, hclear⟩

/-- what was set and not cleared since holds at the end of a run, if along `C` the steps that set it bring it about, and only
those that clear it end it -/
theorem holds_of_since {step : σ → α → σ} {C : σ → α → Prop} {I P : σ → Prop} {sets clears : σ → α → Prop}
    (hinv : ∀ s o, I s → C s o → I (step s o))
    (hstep : ∀ s o, I s → C s o → sets s o ∨ P s ∧ ¬ clears s o → P (step s o)) {s : σ} (hI : I s) {ops : List α}
    (hC : Along step C s ops) (h : Since step sets clears s ops) : P (run step s ops) := by
  induction ops using List.reverseRecOn with
  | nil =>
    obtain ⟨a, o, b, hab, -⟩ := h
    exact absurd hab.symm (by simp)
  | append_singleton ops o ih =>
    obtain ⟨hbefore, hlast, -⟩ := along_append.1 hC
    rw [run_snoc]
    refine hstep _ o (run_inv hinv hI hbefore) hlast ?_
    exact (since_concat.1 h).imp_right fun ⟨hsince, hclear⟩ => ⟨ih hbefore hsince, hclear⟩

/-- **Since.** What some steps set, others clear and the rest leave alone holds at the end of a run exactly if it was set
and not cleared since. -/
theorem holds_iff_since {step : σ → α → σ} {P : σ → Prop} {sets clears : σ → α → Prop}
    (hstep : ∀ s o, P (step s o) ↔ sets s o ∨ P s ∧ ¬ clears s o) {s : σ} (h0 : ¬ P s) (ops : List α) :
    P (run step s ops) ↔ Since step sets clears s ops :=
  ⟨since_of_holds (I := fun _ => True) (fun _ _ _ => trivial) (fun s o _ => (hstep s o).1) trivial h0 ops,
    holds_of_since (I := fun _ => True) (fun _ _ _ _ => trivial) (fun s o _ _ => (hstep s o).2) trivial
      (along_of_mem fun _ _ => trivial)⟩

end Concordia.Lib
