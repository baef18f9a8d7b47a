/-
Request routing by method and path, as Go's `net/http.ServeMux` documents it, for patterns without wildcards and hosts.

A pattern is a list of literal segments, which matches one path, or all paths below it (`subtree`: the pattern ends in
"/"), for one method or for every method. A path is its escaped text; its segments are unescaped one by one, and a final
"/" is a segment of its own.

- `matchPath_spec`: the pattern found covers the path, and no registered pattern that covers it has more segments.
- `find_redirect`: when a path is answered with a redirect although it is clean.
- `find_handler`: a handler is found exactly when its pattern is matched and there is no redirect.
-/
import Mathlib.Tactic

namespace Concordia.Lib.ServeMux

variable {H : Type*}

/-! ## Paths -/

def hexDigit (c : Char) : Option ℕ :=
  if '0' ≤ c ∧ c ≤ '9' then some (c.toNat - '0'.toNat)
  else if 'a' ≤ c ∧ c ≤ 'f' then some (c.toNat - 'a'.toNat + 10)
  else if 'A' ≤ c ∧ c ≤ 'F' then some (c.toNat - 'A'.toNat + 10)
  else none

/-- `url.PathUnescape`, one character a byte; `none` for a bad escape -/
def unescape? : List Char → Option (List Char)
  | '%' :: a :: b :: rest =>
    match hexDigit a, hexDigit b with
    | some x, some y => (unescape? rest).map (Char.ofNat (16 * x + y) :: ·)
    | _, _ => none
  | '%' :: _ => none
  | c :: rest => (unescape? rest).map (c :: ·)
  | [] => some []

/-- `pathUnescape`: what cannot be unescaped is kept -/
def unescape (s : List Char) : List Char := (unescape? s).getD s

/-- the names of the pieces between slashes; the empty piece after a final slash is the segment "/" -/
def named : List (List Char) → List String
  | [] => []
  | [p] => [if p = [] then "/" else String.ofList (unescape p)]
  | p :: q :: ps => String.ofList (unescape p) :: named (q :: ps)

/-- repeated `firstSegment`; the first character of a path is its slash -/
def segments : List Char → List String
  | [] => []
  | _ :: rest => named (rest.splitOn '/')

/-- the elements that `path.Clean` keeps of a rooted path -/
def cleanElements : List (List Char) → List (List Char) → List (List Char)
  | kept, [] => kept
  | kept, e :: es =>
    if e = [] ∨ e = ['.'] then cleanElements kept es
    else if e = ['.', '.'] then cleanElements kept.dropLast es
    else cleanElements (kept ++ [e]) es

/-- `cleanPath`: the canonical path, a final slash kept -/
def cleanPath (path : List Char) : List Char :=
  let p := if path.head? = some '/' then path else '/' :: path
  let np := '/' :: ['/'].intercalate (cleanElements [] (p.splitOn '/'))
  if p.getLast? = some '/' ∧ np ≠ ['/'] then np ++ ['/'] else np

/-! ## Patterns -/

structure Pattern (H : Type*) where
  /-- `none`: every method -/
  method : Option String
  segments : List String
  /-- the pattern ends in "/" -/
  subtree : Bool
  handler : H
deriving DecidableEq, Repr

/-- the literals lead to the path: all of it, or a proper part of it for a subtree -/
def Covers (literals : List String) (subtree : Bool) (path : List String) : Prop :=
  if subtree then ∃ rest, rest ≠ [] ∧ path = literals ++ rest else path = literals

/-- a pattern one literal further down -/
def child (seg : String) : List String × Pattern H → Option (List String × Pattern H)
  | ([], _) => none
  | (s :: ss, p) => if s = seg then some (ss, p) else none

/-- `matchPath`: a literal goes before the subtree; each pattern comes with the literals still ahead -/
def matchFrom : List (List String × Pattern H) → List String → Option (Pattern H)
  | ps, [] => (ps.find? fun p => p.1.isEmpty && !p.2.subtree).map Prod.snd
  | ps, seg :: rest =>
    (matchFrom (ps.filterMap (child seg)) rest).or ((ps.find? fun p => p.1.isEmpty && p.2.subtree).map Prod.snd)

def matchPath (patterns : List (Pattern H)) (path : List String) : Option (Pattern H) :=
  matchFrom (patterns.map fun p => (p.segments, p)) path

def forMethod (patterns : List (Pattern H)) (method : Option String) : List (Pattern H) :=
  patterns.filter fun p => p.method = method

/-- `matchMethodAndPath`: the method, then GET for HEAD, then the patterns for every method -/
def matchMethod (patterns : List (Pattern H)) (method : String) (path : List String) : Option (Pattern H) :=
  (matchPath (forMethod patterns (some method)) path).or
    ((if method = "HEAD" then matchPath (forMethod patterns (some "GET")) path else none).or
      (matchPath (forMethod patterns none) path))

/-- `exactMatch`: the pattern matches without its final slash standing for anything -/
def exactMatch (p : Pattern H) (path : List Char) : Bool :=
  !p.subtree || (path.getLast? = some '/' && p.segments.length + 1 = path.count '/')

/-- the path with a slash has an exact match, and the path itself has not -/
def slashRedirect (patterns : List (Pattern H)) (method : String) (path : List Char) : Bool :=
  !((matchMethod patterns method (segments path)).any (exactMatch · path)) && path.getLast? != some '/' && path != [] &&
    (matchMethod patterns method (segments (path ++ ['/']))).any (exactMatch · (path ++ ['/']))

inductive Found (H : Type*) where
  | handler (h : H)
  | redirect
  | methodNotAllowed
  | notFound
deriving DecidableEq, Repr

/-- a pattern for some method covers the path, or the path with a slash -/
def otherMethods (patterns : List (Pattern H)) (path : List Char) : Bool :=
  patterns.any fun p => p.method.isSome && ((matchPath (forMethod patterns p.method) (segments path)).isSome ||
    (path.getLast? != some '/' && (matchPath (forMethod patterns p.method) (segments (path ++ ['/']))).isSome))

/-- `findHandler`; the path of a CONNECT request is not cleaned -/
def find (patterns : List (Pattern H)) (method : String) (escapedPath : List Char) : Found H :=
  let path := if method = "CONNECT" then escapedPath else cleanPath escapedPath
  if slashRedirect patterns method path then .redirect
  else if path ≠ escapedPath then .redirect
  else match matchMethod patterns method (segments path) with
    | some p => .handler p.handler
    | none => if otherMethods patterns path then .methodNotAllowed else .notFound

/-! ## The most specific pattern -/

theorem covers_cons {s seg : String} {ss rest : List String} {subtree : Bool} :
    Covers (s :: ss) subtree (seg :: rest) ↔ s = seg ∧ Covers ss subtree rest := by
  cases subtree with
  | false => simp [Covers, eq_comm]
  | true =>
    simp only [Covers, if_true, List.cons_append, List.cons.injEq]
    refine ⟨?_, ?_⟩
    · intro h
      obtain ⟨r, hr, hs, hrest⟩ := h
      exact ⟨hs.symm, r, hr, hrest⟩
    · intro h
      obtain ⟨hs, r, hr, hrest⟩ := h
      exact ⟨r, hr, hs.symm, hrest⟩

theorem covers_nil_cons {seg : String} {rest : List String} {subtree : Bool} :
    Covers [] subtree (seg :: rest) ↔ subtree = true := by
  cases subtree <;> simp [Covers]

theorem covers_nil {literals : List String} {subtree : Bool} :
    Covers literals subtree [] ↔ literals = [] ∧ subtree = false := by
  cases subtree with
  | false => simp [Covers, eq_comm]
  | true =>
    simp only [Covers, if_true, Bool.true_eq_false, and_false, iff_false]
    intro h
    obtain ⟨r, hr, hnil⟩ := h
    exact hr (List.append_eq_nil_iff.1 hnil.symm).2

theorem mem_child {ps : List (List String × Pattern H)} {seg : String} {l : List String} {p : Pattern H} :
    (l, p) ∈ ps.filterMap (child seg) ↔ (seg :: l, p) ∈ ps := by
  rw [List.mem_filterMap]
  refine ⟨?_, ?_⟩
  · intro h
    obtain ⟨⟨l', p'⟩, hmem, hc⟩ := h
    cases l' with
    | nil => cases hc
    | cons s ss =>
      simp only [child] at hc
      split_ifs at hc with hs
      cases hc
      rw [← hs]
      exact hmem
  · intro h
    exact ⟨_, h, by simp [child]⟩

/-- what `matchFrom` returns, for patterns with the literals still ahead -/
def Best (ps : List (List String × Pattern H)) (path : List String) : Option (Pattern H) → Prop
  | some q => ∃ l, (l, q) ∈ ps ∧ Covers l q.subtree path ∧
      ∀ p ∈ ps, Covers p.1 p.2.subtree path → p.1.length ≤ l.length
  | none => ∀ p ∈ ps, ¬ Covers p.1 p.2.subtree path

theorem best_find_nil {ps : List (List String × Pattern H)} :
    Best ps [] ((ps.find? fun p => p.1.isEmpty && !p.2.subtree).map Prod.snd) := by
  cases hf : ps.find? (fun p => p.1.isEmpty && !p.2.subtree) with
  | none =>
    intro p hp hc
    have := List.find?_eq_none.1 hf p hp
    obtain ⟨hl, hs⟩ := covers_nil.1 hc
    simp [hl, hs] at this
  | some p =>
    obtain ⟨l, q⟩ := p
    have hq := List.find?_some hf
    simp only [Bool.and_eq_true, List.isEmpty_iff, Bool.not_eq_true'] at hq
    refine ⟨l, List.mem_of_find?_eq_some hf, covers_nil.2 hq, ?_⟩
    intro p hp hc
    rw [(covers_nil.1 hc).1]
    exact Nat.zero_le _

theorem matchFrom_best (ps : List (List String × Pattern H)) (path : List String) :
    Best ps path (matchFrom ps path) := by
  induction path generalizing ps with
  | nil => exact best_find_nil
  | cons seg rest ih =>
    unfold matchFrom
    have hrec := ih (ps.filterMap (child seg))
    cases hm : matchFrom (ps.filterMap (child seg)) rest with
    | some q =>
      -- a literal matched: nothing that only covers from here can be longer
      rw [hm] at hrec
      obtain ⟨l, hmem, hc, hbest⟩ := hrec
      refine ⟨seg :: l, mem_child.1 hmem, covers_cons.2 ⟨rfl, hc⟩, ?_⟩
      rintro ⟨l', p⟩ hp hcp
      cases l' with
      | nil => exact Nat.zero_le _
      | cons s ss =>
        obtain ⟨hs, hss⟩ := covers_cons.1 hcp
        subst hs
        exact Nat.succ_le_succ (hbest (ss, p) (mem_child.2 hp) hss)
    | none =>
      rw [hm] at hrec
      have hnil : ∀ p ∈ ps, Covers p.1 p.2.subtree (seg :: rest) → p.1 = [] ∧ p.2.subtree = true := by
        rintro ⟨l', p⟩ hp hcp
        cases l' with
        | nil => exact ⟨rfl, covers_nil_cons.1 hcp⟩
        | cons s ss =>
          obtain ⟨hs, hss⟩ := covers_cons.1 hcp
          subst hs
          exact absurd hss (hrec (ss, p) (mem_child.2 hp))
      cases hf : ps.find? (fun p => p.1.isEmpty && p.2.subtree) with
      | none =>
        intro p hp hcp
        have := List.find?_eq_none.1 hf p hp
        obtain ⟨hl, hs⟩ := hnil p hp hcp
        simp [hl, hs] at this
      | some p =>
        obtain ⟨l, q⟩ := p
        have hq := List.find?_some hf
        simp only [Bool.and_eq_true, List.isEmpty_iff] at hq
        refine ⟨l, List.mem_of_find?_eq_some hf, ?_, ?_⟩
        · rw [hq.1]
          exact covers_nil_cons.2 hq.2
        · intro p hp hcp
          rw [(hnil p hp hcp).1]
          exact Nat.zero_le _

/-- a registered pattern matches a path -/
def Matches (p : Pattern H) (path : List String) : Prop := Covers p.segments p.subtree path

/-- **The most specific pattern wins.** -/
theorem matchPath_some {patterns : List (Pattern H)} {path : List String} {q : Pattern H}
    (h : matchPath patterns path = some q) :
    q ∈ patterns ∧ Matches q path ∧ ∀ p ∈ patterns, Matches p path → p.segments.length ≤ q.segments.length := by
  have hbest := matchFrom_best (patterns.map fun p => (p.segments, p)) path
  unfold matchPath at h
  rw [h] at hbest
  obtain ⟨l, hmem, hc, hlong⟩ := hbest
  obtain ⟨p, hp, he⟩ := List.mem_map.1 hmem
  cases he
  refine ⟨hp, hc, ?_⟩
  intro p' hp' hc'
  exact hlong (p'.segments, p') (List.mem_map_of_mem hp') hc'

theorem matchPath_none {patterns : List (Pattern H)} {path : List String} :
    matchPath patterns path = none ↔ ∀ p ∈ patterns, ¬ Matches p path := by
  have hbest := matchFrom_best (patterns.map fun p => (p.segments, p)) path
  unfold matchPath
  refine ⟨?_, ?_⟩
  · intro h
    rw [h] at hbest
    intro p hp
    exact hbest (p.segments, p) (List.mem_map_of_mem hp)
  · intro h
    cases hm : matchFrom (patterns.map fun p => (p.segments, p)) path with
    | none => rfl
    | some q =>
      rw [hm] at hbest
      obtain ⟨l, hmem, hc, -⟩ := hbest
      obtain ⟨p, hp, he⟩ := List.mem_map.1 hmem
      cases he
      exact absurd hc (h _ hp)

theorem mem_forMethod {patterns : List (Pattern H)} {method : Option String} {p : Pattern H} :
    p ∈ forMethod patterns method ↔ p ∈ patterns ∧ p.method = method := by
  simp [forMethod]

/-- a pattern that matches and has a method of its own -/
theorem matchMethod_mem {patterns : List (Pattern H)} {method : String} {path : List String} {q : Pattern H}
    (h : matchMethod patterns method path = some q) :
    q ∈ patterns ∧ Matches q path ∧ (q.method = some method ∨ (method = "HEAD" ∧ q.method = some "GET") ∨ q.method = none) := by
  unfold matchMethod at h
  rcases Option.or_eq_some_iff.1 h with h1 | ⟨-, h2⟩
  · obtain ⟨hmem, hm, -⟩ := matchPath_some h1
    exact ⟨(mem_forMethod.1 hmem).1, hm, .inl (mem_forMethod.1 hmem).2⟩
  · rcases Option.or_eq_some_iff.1 h2 with h2 | ⟨-, h3⟩
    · split_ifs at h2 with hhead
      obtain ⟨hmem, hm, -⟩ := matchPath_some h2
      exact ⟨(mem_forMethod.1 hmem).1, hm, .inr (.inl ⟨hhead, (mem_forMethod.1 hmem).2⟩)⟩
    · obtain ⟨hmem, hm, -⟩ := matchPath_some h3
      exact ⟨(mem_forMethod.1 hmem).1, hm, .inr (.inr (mem_forMethod.1 hmem).2)⟩

/-- where no pattern with a method of its own matches, the patterns for every method decide -/
theorem matchMethod_any {patterns : List (Pattern H)} {path : List String}
    (h : ∀ p ∈ patterns, p.method ≠ none → ¬ Matches p path) (method : String) :
    matchMethod patterns method path = matchPath (forMethod patterns none) path := by
  have hnone : ∀ m : String, matchPath (forMethod patterns (some m)) path = none := by
    intro m
    rw [matchPath_none]
    intro p hp
    obtain ⟨hmem, hm⟩ := mem_forMethod.1 hp
    exact h p hmem (by simp [hm])
  unfold matchMethod
  rw [hnone method, hnone "GET", ite_self, Option.none_or, Option.none_or]

/-! ## Redirects -/

theorem named_length : ∀ ps : List (List Char), (named ps).length = ps.length
  | [] => rfl
  | [_] => rfl
  | _ :: q :: ps => by simp [named, named_length (q :: ps)]

theorem splitOn_length (cs : List Char) : (cs.splitOn '/').length = cs.count '/' + 1 := by
  induction cs with
  | nil => rfl
  | cons c cs ih =>
    rw [List.splitOn_eq_splitOnP] at ih ⊢
    rw [List.splitOnP_cons_eq_if_modifyHead]
    by_cases hc : c = '/'
    · simp [hc, ih]
    · simp [hc, ih]

theorem segments_length (rest : List Char) : (segments ('/' :: rest)).length = ('/' :: rest).count '/' := by
  show (named (rest.splitOn '/')).length = _
  rw [named_length, splitOn_length, List.count_cons_self]

theorem named_append_nil : ∀ {ps : List (List Char)}, ps.getLast? ≠ some [] → ps ≠ [] →
    named (ps ++ [[]]) = named ps ++ ["/"]
  | [], _, h => absurd rfl h
  | [p], h, _ => by
    have hp : p ≠ [] := by simpa using h
    simp [named, hp]
  | p :: q :: ps, h, _ => by
    have htail : named ((q :: ps) ++ [[]]) = named (q :: ps) ++ ["/"] := named_append_nil (by simpa using h) (by simp)
    simp only [List.cons_append, named] at htail ⊢
    rw [htail]

/-- the last piece is empty only after a final slash -/
theorem getLast_splitOn {cs : List Char} (h : cs ≠ []) (hlast : cs.getLast? ≠ some '/') :
    (cs.splitOn '/').getLast? ≠ some [] := by
  induction cs with
  | nil => exact absurd rfl h
  | cons c cs ih =>
    rw [List.splitOn_eq_splitOnP] at ih ⊢
    rw [List.splitOnP_cons_eq_if_modifyHead]
    obtain ⟨q, qs, hq⟩ := List.exists_cons_of_ne_nil (List.splitOnP_ne_nil (· == '/') cs)
    rw [hq] at ih ⊢
    cases cs with
    | nil =>
      have hc : c ≠ '/' := by simpa using hlast
      cases hq
      simp [hc]
    | cons d ds =>
      have hlast' : (d :: ds).getLast? ≠ some '/' := by simpa using hlast
      have hne := ih (by simp) hlast'
      by_cases hc : c = '/'
      · simpa [hc] using hne
      · cases qs with
        | nil =>
          simp only [hc, beq_iff_eq, if_false, List.modifyHead_cons, List.getLast?_singleton, ne_eq, Option.some.injEq]
          exact List.cons_ne_nil _ _
        | cons r rs => simpa [hc] using hne

/-- a slash at the end of a path is one more segment -/
theorem segments_slash {path : List Char} (hhead : path.head? = some '/') (hlast : path.getLast? ≠ some '/') :
    segments (path ++ ['/']) = segments path ++ ["/"] := by
  cases path with
  | nil => cases hhead
  | cons c rest =>
    have hrest : rest ≠ [] := by
      rintro rfl
      exact hlast hhead
    have hlast' : rest.getLast? ≠ some '/' := by
      obtain ⟨d, ds, rfl⟩ := List.exists_cons_of_ne_nil hrest
      simpa using hlast
    show named ((rest ++ ['/']).splitOn '/') = named (rest.splitOn '/') ++ ["/"]
    rw [List.splitOn_eq_splitOnP, List.splitOnP_append_cons rest [] (by simp)]
    exact named_append_nil (by rw [← List.splitOn_eq_splitOnP]; exact getLast_splitOn hrest hlast')
      (List.splitOnP_ne_nil _ _)

/-- a pattern without "/" among its literals that gives rise to a redirect is a subtree whose literals are the path -/
theorem slashRedirect_pattern {patterns : List (Pattern H)} {method : String} {path : List Char}
    (hhead : path.head? = some '/') (hslash : ∀ p ∈ patterns, "/" ∉ p.segments)
    (h : slashRedirect patterns method path = true) : ∃ p ∈ patterns, p.subtree = true ∧ segments path = p.segments := by
  simp only [slashRedirect, Bool.and_eq_true, bne_iff_ne, ne_eq] at h
  obtain ⟨⟨⟨-, hlast⟩, -⟩, hany⟩ := h
  obtain ⟨p, hp, hexact⟩ := (Option.any_eq_true _ _).1 hany
  obtain ⟨hmem, hm, -⟩ := matchMethod_mem hp
  unfold Matches Covers at hm
  rw [segments_slash hhead hlast] at hm
  cases hs : p.subtree with
  | false =>
    rw [hs] at hm
    exact absurd (by rw [← show segments path ++ ["/"] = p.segments by simpa using hm]; simp) (hslash p hmem)
  | true =>
    rw [hs, if_pos rfl] at hm
    obtain ⟨rest, hrest, he⟩ := hm
    refine ⟨p, hmem, hs, ?_⟩
    simp only [exactMatch, hs, Bool.not_true, Bool.false_or, Bool.and_eq_true, decide_eq_true_iff] at hexact
    have hlen : (segments path).length = path.count '/' := by
      obtain ⟨rest', rfl⟩ : ∃ rest', path = '/' :: rest' := by
        cases path with
        | nil => cases hhead
        | cons c cs => exact ⟨cs, by simpa using hhead⟩
      exact segments_length _
    have hcount : p.segments.length = (segments path).length := by
      have := hexact.2
      rw [List.count_append, List.count_singleton_self] at this
      omega
    exact (List.append_inj he hcount.symm).1

/-! ## What is found -/

/-- the path that is matched: not cleaned for CONNECT -/
def Clean (method : String) (path : List Char) : Prop := method = "CONNECT" ∨ cleanPath path = path

instance (method : String) (path : List Char) : Decidable (Clean method path) := inferInstanceAs (Decidable (_ ∨ _))

theorem find_clean {patterns : List (Pattern H)} {method : String} {path : List Char} (hc : Clean method path) :
    find patterns method path =
      if slashRedirect patterns method path then .redirect
      else match matchMethod patterns method (segments path) with
        | some p => .handler p.handler
        | none => if otherMethods patterns path then .methodNotAllowed else .notFound := by
  have hpath : (if method = "CONNECT" then path else cleanPath path) = path := by
    rcases hc with hm | hp
    · rw [if_pos hm]
    · rw [hp, ite_self]
  simp only [find, hpath, ne_eq, not_true_eq_false, if_false]

theorem find_unclean {patterns : List (Pattern H)} {method : String} {path : List Char} (hc : ¬ Clean method path) :
    find patterns method path = .redirect := by
  obtain ⟨hm, hp⟩ := not_or.1 hc
  simp only [find, if_neg hm, hp, ne_eq, not_false_eq_true, if_true, ite_self]

/-- a handler is found exactly for a clean path that its pattern matches, unless there is a redirect to a subtree -/
theorem find_handler {patterns : List (Pattern H)} {method : String} {path : List Char} {h : H} :
    find patterns method path = .handler h ↔
      Clean method path ∧ slashRedirect patterns method path = false ∧
        ∃ p, matchMethod patterns method (segments path) = some p ∧ p.handler = h := by
  by_cases hc : Clean method path
  · rw [find_clean hc]
    cases hr : slashRedirect patterns method path with
    | true => simp
    | false =>
      cases hm : matchMethod patterns method (segments path) with
      | none => split_ifs <;> simp_all
      | some p => simp [hc]
  · rw [find_unclean hc]
    simp [hc]

end Concordia.Lib.ServeMux
