/-
The request that `forwardToChat` issues for a frame (`services/gateway/ws/handler.go`), as `http.NewRequest` makes it from the
text of the URL: the channel id of the frame stands in that text as it is.

`net/url` cuts the fragment and the query off, refuses control characters and broken escapes, and writes the path as it was
given, or percent-encoded where a character of it may not stand in a path.

- `Confined`: the request addresses the messages of the channel, and nothing else.
- `newRequest_endpoint`: the request of a channel id, part by part.
- `issue_confined_iff`: the requests of a frame are confined exactly if the URL is refused, or no character of the channel id
  means anything in a URL (`Harmless`).
- `steered`: a frame that is sent to another endpoint of chat.
-/
import Concordia.Lib.Url
import Concordia.Gateway.Send

namespace Concordia.Gateway

open Concordia.Lib Url
open Concordia.Lib.ServeMux (unescape? hexDigit)

/-! ## Requests -/

/-- an HTTP request as it is written -/
structure WireRequest where
  host : List Char
  path : List Char
  query : Option (List Char)
  fragment : Option (List Char)
deriving DecidableEq, Repr

/-- what comes after the first such mark, if there is one -/
def after? (mark : Char) (cs : List Char) : Option (List Char) :=
  match cs.dropWhile (· ≠ mark) with
  | [] => none
  | _ :: rest => some rest

/-- `shouldEscape` of a path, the other way round -/
def isPathChar (c : Char) : Bool :=
  'a' ≤ c && c ≤ 'z' || 'A' ≤ c && c ≤ 'Z' || '0' ≤ c && c ≤ '9' || "-_.~$&+,/:;=@".toList.contains c

/-- `validEncoded`, for one character -/
def isValidEncoded (c : Char) : Bool := isPathChar c || "!'()*[]%".toList.contains c

/-- `EscapedPath` of the path that `setPath` was given -/
def escapedPath (path : List Char) : List Char :=
  if path.all isValidEncoded then path else encode (fun b => isPathChar (Char.ofNat b.toNat)) (decode path)

/-- `http.NewRequest`; none when `url.Parse` refuses the URL -/
def newRequest (url : List Char) : Option WireRequest :=
  let u := url.takeWhile (· ≠ '#')
  let parts := (u.takeWhile (· ≠ '?')).splitOn '/'
  let path := text (parts.drop 3)
  let fragment := after? '#' url
  if u.any isControl || (unescape? path).isNone || fragment.any fun f => (unescape? f).isNone then none
  else some ⟨parts.getD 2 [], escapedPath path, after? '?' u, fragment⟩

/-- the base URL of chat, without a path -/
structure ChatUrl where
  origin : Origin
  printable : ∀ c ∈ origin.scheme ++ origin.authority, isControl c = false

/-- the request of a `message.send`, if one is made -/
def issue (chatUrl : ChatUrl) (inMsg : InMsg) : Option WireRequest :=
  if inMsg.channelId = "" then none
  else newRequest (chatUrl.origin.text ++ messagesEndpoint inMsg.channelId)

/-! ## Where they go -/

/-- the segments of a channel's messages -/
def messagesSegments (x : Segment) : List Segment := ["channels".toList, x, "messages".toList]

/-- the request addresses the messages of this channel on chat -/
structure Confined (chatUrl : ChatUrl) (channelId : String) (r : WireRequest) : Prop where
  host : r.host = chatUrl.origin.authority
  query : r.query = none
  fragment : r.fragment = none
  path : ∃ x, '/' ∉ x ∧ decode x = octets channelId.toList ∧ r.path = text (messagesSegments x) ∧
    resolve [] (messagesSegments x) = messagesSegments x

/-- a percent sign without two hexadecimal digits -/
def Broken (cs : List Char) : Prop := ∃ t ∈ cs.tails, t.head? = some '%' ∧ escape t = none

/-- a control character before the fragment, or a broken escape in the path or in the fragment -/
def Refused (endpoint : List Char) : Prop :=
  (∃ c ∈ endpoint.takeWhile (· ≠ '#'), isControl c = true) ∨ Broken (locator endpoint) ∨
    ∃ f ∈ after? '#' endpoint, Broken f

/-- one segment, and nothing in it means anything else -/
structure Harmless (channelId : String) : Prop where
  marks : ∀ c ∈ channelId.toList, c ≠ '/' ∧ c ≠ '?' ∧ c ≠ '#' ∧ c ≠ '%'
  dots : ¬ IsDots channelId.toList

/-! ## Escapes -/

theorem hexDigit_eq (c : Char) : hexDigit c = hexValue c := by
  unfold hexDigit hexValue
  have h0 : '0'.toNat = 48 := rfl
  have ha : 'a'.toNat = 97 := rfl
  have hA : 'A'.toNat = 65 := rfl
  rw [h0, ha, hA]
  simp only [Char.le_def, UInt32.le_iff_toNat_le]
  show (if 48 ≤ c.toNat ∧ c.toNat ≤ 57 then _ else if 97 ≤ c.toNat ∧ c.toNat ≤ 102 then _ else
    if 65 ≤ c.toNat ∧ c.toNat ≤ 70 then _ else _) = if 48 ≤ c.toNat ∧ c.toNat ≤ 57 then _ else
    if 65 ≤ c.toNat ∧ c.toNat ≤ 70 then _ else if 97 ≤ c.toNat ∧ c.toNat ≤ 102 then _ else _
  split_ifs
  all_goals first | rfl | omega | (congr 1; omega)

theorem hexValue_percent : hexValue '%' = none := by decide

theorem broken_cons {c : Char} (hc : c ≠ '%') {cs : List Char} : Broken (c :: cs) ↔ Broken cs := by
  unfold Broken
  simp [List.tails, hc]

/-- nothing is broken after an escape, unless it is broken in what follows -/
theorem broken_escape {x y : Char} {cs : List Char} (hx : hexValue x ≠ none) (hy : hexValue y ≠ none) :
    Broken ('%' :: x :: y :: cs) ↔ Broken cs := by
  have hne : ∀ z, hexValue z ≠ none → z ≠ '%' := by
    rintro z hz rfl
    exact hz hexValue_percent
  obtain ⟨high, hhigh⟩ := Option.ne_none_iff_exists'.1 hx
  obtain ⟨low, hlow⟩ := Option.ne_none_iff_exists'.1 hy
  have hsome : escape ('%' :: x :: y :: cs) ≠ none := by simp [escape, hhigh, hlow]
  have hhead : Broken ('%' :: x :: y :: cs) ↔ Broken (x :: y :: cs) := by
    unfold Broken
    rw [show ('%' :: x :: y :: cs).tails = ('%' :: x :: y :: cs) :: (x :: y :: cs).tails from rfl]
    simp only [List.mem_cons, exists_eq_or_imp, hsome, and_false, false_or]
  rw [hhead, broken_cons (hne x hx), broken_cons (hne y hy)]

theorem unescape_none_iff {cs : List Char} : unescape? cs = none ↔ Broken cs := by
  fun_induction unescape? cs with
  | case1 a b rest x y hx hy ih =>
    rw [hexDigit_eq] at hx hy
    rw [Option.map_eq_none_iff, ih, broken_escape (by simp [hy]) (by simp [hx])]
  | case2 a b rest hnone =>
    refine iff_of_true rfl ⟨_, List.mem_cons_self .., rfl, ?_⟩
    simp only [hexDigit_eq] at hnone
    cases ha : hexValue a with
    | none => simp [escape, ha]
    | some x =>
      cases hb : hexValue b with
      | none => simp [escape, ha, hb]
      | some y => exact absurd hb (hnone x y ha)
  | case3 rest hshort =>
    refine iff_of_true rfl ⟨_, List.mem_cons_self .., rfl, ?_⟩
    rcases rest with _ | ⟨a, _ | ⟨b, rest⟩⟩
    · rfl
    · rfl
    · exact absurd rfl (hshort a b rest)
  | case4 c rest _ hpercent ih => rw [Option.map_eq_none_iff, ih, broken_cons hpercent]
  | case5 => simp [Broken]

/-- without broken escapes, what is not percent-encoded has no percent sign -/
theorem no_percent {cs : List Char} (hbroken : ¬ Broken cs) (hunescaped : Unescaped cs) : '%' ∉ cs := by
  intro hmem
  obtain ⟨a, b, rfl⟩ := List.append_of_mem hmem
  have htail : '%' :: b ∈ (a ++ '%' :: b).tails := (List.mem_tails _ _).2 (List.suffix_append a ('%' :: b))
  exact hbroken ⟨_, htail, rfl, hunescaped _ htail⟩

theorem unescaped_of_no_percent {cs : List Char} (h : '%' ∉ cs) : Unescaped cs := by
  intro t ht
  cases hescape : escape t with
  | none => rfl
  | some octet =>
    obtain ⟨x, y, rest, rfl⟩ := escape_some hescape
    exact absurd (((List.mem_tails _ _).1 ht).subset List.mem_cons_self) h

/-- reading a text back between two others -/
theorem decode_between {pre x post cs : List Char} {c : Char} (hpre : '%' ∉ pre) (hc : hexValue c = none)
    (hpost : '%' ∉ c :: post) (hx : decode x = octets cs) :
    decode (pre ++ x ++ c :: post) = octets (pre ++ cs ++ c :: post) := by
  rw [List.append_assoc, decode_append hpre, decode_append_cons hc, hx, octets_append, octets_append, List.append_assoc,
    decode_of_unescaped (unescaped_of_no_percent hpost)]

/-! ## The path as it is written -/

theorem pathChar_kept (b : UInt8) (h : isPathChar (Char.ofNat b.toNat) = true) : b.toNat < 128 ∧ b.toNat ≠ 37 := by
  have hall : ∀ n < 256, isPathChar (Char.ofNat n) = true → n < 128 ∧ n ≠ 37 := by decide +kernel
  exact hall _ b.toNat_lt h

theorem decode_escapedPath (path : List Char) : decode (escapedPath path) = decode path := by
  unfold escapedPath
  split_ifs
  · rfl
  · exact decode_encode pathChar_kept _

/-- a slash is written for a slash -/
theorem slash_escapedPath {path : List Char} (h : '%' ∉ path) : '/' ∈ escapedPath path ↔ '/' ∈ path := by
  unfold escapedPath
  split_ifs
  · rfl
  · rw [decode_of_unescaped (unescaped_of_no_percent h)]
    refine ⟨?_, ?_⟩
    · intro hslash
      obtain ⟨b, hb, hmem⟩ := List.mem_flatMap.1 hslash
      split_ifs at hmem with hkept
      · rw [List.mem_singleton.1 hmem]
        exact mem_octets hb (pathChar_kept b hkept).1
      · have hdigit : ∀ n < 16, upperDigit n ≠ '/' := by decide
        have hlt : b.toNat < 256 := b.toNat_lt
        simp only [List.mem_cons, List.not_mem_nil, or_false] at hmem
        rcases hmem with hmem | hmem | hmem
        · exact absurd hmem (by decide)
        · exact absurd hmem.symm (hdigit _ (by omega))
        · exact absurd hmem.symm (hdigit _ (by omega))
    · intro hslash
      exact List.mem_flatMap.2 ⟨47, List.mem_flatMap.2 ⟨'/', hslash, by decide⟩, by decide⟩

/-- the fixed parts of a path are written as they are -/
theorem escapedPath_between {pre post cs : List Char} (hpre : ∀ c ∈ pre, c.toNat < 128 ∧ isPathChar c = true)
    (hpost : ∀ c ∈ post, c.toNat < 128 ∧ isPathChar c = true) (h : '%' ∉ cs) :
    escapedPath (pre ++ cs ++ post) = pre ++ escapedPath cs ++ post := by
  have hvalid : ∀ fixed : List Char, (∀ c ∈ fixed, c.toNat < 128 ∧ isPathChar c = true) →
      fixed.all isValidEncoded = true ∧ '%' ∉ fixed ∧
        encode (fun b => isPathChar (Char.ofNat b.toNat)) (octets fixed) = fixed := by
    intro fixed hfixed
    refine ⟨?_, fun hmem => absurd (hfixed _ hmem).2 (by decide), encode_octets ?_⟩
    · rw [List.all_eq_true]
      intro c hc
      rw [isValidEncoded, (hfixed c hc).2, Bool.true_or]
    · intro c hc
      have hback : (UInt8.ofNat c.toNat).toNat = c.toNat :=
        UInt8.toNat_ofNat_of_lt' (show c.toNat < 256 from lt_trans (hfixed c hc).1 (by decide))
      refine ⟨(hfixed c hc).1, ?_⟩
      rw [hback, Char.ofNat_toNat]
      exact (hfixed c hc).2
  obtain ⟨hvalidPre, hnoPre, hencodePre⟩ := hvalid pre hpre
  obtain ⟨hvalidPost, hnoPost, hencodePost⟩ := hvalid post hpost
  have hno : '%' ∉ pre ++ cs ++ post := by
    simp only [List.mem_append, not_or]
    exact ⟨⟨hnoPre, h⟩, hnoPost⟩
  unfold escapedPath
  rw [List.all_append, List.all_append, hvalidPre, hvalidPost, Bool.true_and, Bool.and_true]
  by_cases hcs : cs.all isValidEncoded = true
  · rw [if_pos hcs, if_pos hcs]
  · rw [if_neg hcs, if_neg hcs, decode_of_unescaped (unescaped_of_no_percent hno),
      decode_of_unescaped (unescaped_of_no_percent h), octets_append, octets_append, encode_append, encode_append,
      hencodePre, hencodePost]

theorem text_messagesSegments (x : Segment) : text (messagesSegments x) = "/channels/".toList ++ x ++ "/messages".toList := by
  simp [text, messagesSegments]

theorem escapedPath_endpoint {channelId : String} (h : '%' ∉ channelId.toList) :
    escapedPath (messagesEndpoint channelId) = text (messagesSegments (escapedPath channelId.toList)) := by
  rw [text_messagesSegments]
  exact escapedPath_between (List.forall_iff_forall_mem.1 (by decide)) (List.forall_iff_forall_mem.1 (by decide)) h

/-! ## The request of an endpoint -/

theorem after?_eq_none {mark : Char} {cs : List Char} : after? mark cs = none ↔ mark ∉ cs := by
  unfold after?
  split
  · next h =>
    rw [List.dropWhile_eq_nil_iff] at h
    simp only [true_iff]
    intro hmem
    simpa using h mark hmem
  · next c rest h =>
    simp only [reduceCtorEq, false_iff, not_not]
    have hhead := List.head?_dropWhile_not (· ≠ mark) cs
    rw [h] at hhead
    have hc : c = mark := by simpa using hhead
    rw [← hc]
    exact (List.dropWhile_suffix _).subset (by rw [h]; exact List.mem_cons_self)

/-- what comes before the path has no mark and no control character -/
theorem origin_plain (chatUrl : ChatUrl) : ∀ c ∈ chatUrl.origin.text, c ≠ '#' ∧ c ≠ '?' ∧ isControl c = false := by
  intro c hc
  have hmark : ∀ c ∈ chatUrl.origin.scheme ++ chatUrl.origin.authority, c ≠ '#' ∧ c ≠ '?' ∧ isControl c = false :=
    fun c hc => ⟨(chatUrl.origin.plain c hc).2.1, (chatUrl.origin.plain c hc).2.2, chatUrl.printable c hc⟩
  simp only [Origin.text, List.mem_append, List.mem_cons] at hc
  rcases hc with hc | rfl | rfl | rfl | hc
  · exact hmark c (List.mem_append_left _ hc)
  · decide
  · decide
  · decide
  · exact hmark c (List.mem_append_right _ hc)

theorem newRequest_origin (chatUrl : ChatUrl) (path : List Char) :
    newRequest (chatUrl.origin.text ++ '/' :: path) =
      if (('/' :: path).takeWhile (· ≠ '#')).any isControl || (unescape? (locator ('/' :: path))).isNone ||
          (after? '#' ('/' :: path)).any fun f => (unescape? f).isNone then none
      else some ⟨chatUrl.origin.authority, escapedPath (locator ('/' :: path)),
        after? '?' (('/' :: path).takeWhile (· ≠ '#')), after? '#' ('/' :: path)⟩ := by
  have hplain := origin_plain chatUrl
  have htake : (chatUrl.origin.text ++ '/' :: path).takeWhile (· ≠ '#') =
      chatUrl.origin.text ++ ('/' :: path).takeWhile (· ≠ '#') :=
    List.takeWhile_append_of_pos fun c hc => by simpa using (hplain c hc).1
  have hafter : ∀ mark, (∀ c ∈ chatUrl.origin.text, c ≠ mark) → ∀ cs,
      after? mark (chatUrl.origin.text ++ cs) = after? mark cs := by
    intro mark hmark cs
    unfold after?
    rw [List.dropWhile_append_of_pos fun c hc => by simpa using hmark c hc]
  have hcontrol : chatUrl.origin.text.any isControl = false := by
    rw [List.any_eq_false]
    intro c hc
    simp [(hplain c hc).2.2]
  have hlocator : locator ('/' :: path) = '/' :: locator path :=
    locator_append (a := ['/']) (List.forall_iff_forall_mem.1 (by decide)) path
  have hparts := splitOn_origin chatUrl.origin path
  unfold newRequest
  unfold locator at hparts hlocator ⊢
  dsimp only
  rw [hparts, hafter '#' (fun c hc => (hplain c hc).1), htake, hafter '?' (fun c hc => (hplain c hc).2.1), List.any_append,
    hcontrol, Bool.false_or]
  simp only [List.drop_succ_cons, List.drop_zero]
  rw [text_splitOn, ← hlocator]
  rfl

theorem newRequest_refused (chatUrl : ChatUrl) {path : List Char} (h : Refused ('/' :: path)) :
    newRequest (chatUrl.origin.text ++ '/' :: path) = none := by
  rw [newRequest_origin, if_pos]
  rw [Bool.or_eq_true, Bool.or_eq_true]
  rcases h with ⟨c, hc, hcontrol⟩ | hbroken | ⟨f, hf, hbroken⟩
  · exact .inl (.inl (List.any_eq_true.2 ⟨c, hc, hcontrol⟩))
  · exact .inl (.inr (by rw [unescape_none_iff.2 hbroken]; rfl))
  · refine .inr ?_
    rw [Option.mem_def.1 hf, Option.any_some, unescape_none_iff.2 hbroken]
    rfl

theorem newRequest_accepted (chatUrl : ChatUrl) {path : List Char} (h : ¬ Refused ('/' :: path)) :
    newRequest (chatUrl.origin.text ++ '/' :: path) =
      some ⟨chatUrl.origin.authority, escapedPath (locator ('/' :: path)),
        after? '?' (('/' :: path).takeWhile (· ≠ '#')), after? '#' ('/' :: path)⟩ := by
  rw [newRequest_origin, if_neg]
  intro hrefused
  apply h
  rw [Bool.or_eq_true, Bool.or_eq_true] at hrefused
  rcases hrefused with (hcontrol | hbroken) | hbroken
  · exact .inl (List.any_eq_true.1 hcontrol)
  · exact .inr (.inl (unescape_none_iff.1 (Option.isNone_iff_eq_none.1 hbroken)))
  · refine .inr (.inr ?_)
    cases hf : after? '#' ('/' :: path) with
    | none =>
      rw [hf] at hbroken
      cases hbroken
    | some f =>
      rw [hf, Option.any_some] at hbroken
      exact ⟨f, rfl, unescape_none_iff.1 (Option.isNone_iff_eq_none.1 hbroken)⟩

/-! ## Frames -/

theorem mark_endpoint {mark : Char} (h : mark ∈ ['?', '#', '%']) (channelId : String) :
    mark ∈ messagesEndpoint channelId ↔ mark ∈ channelId.toList := by
  have hfixed : ∀ mark ∈ ['?', '#', '%'], mark ∉ "/channels/".toList ∧ mark ∉ "/messages".toList :=
    List.forall_iff_forall_mem.1 (by decide)
  obtain ⟨hpre, hpost⟩ := hfixed mark h
  unfold messagesEndpoint
  simp only [List.mem_append, hpre, hpost, false_or, or_false]

/-- the segment of a harmless id is read back as the id -/
theorem harmless_confined {chatUrl : ChatUrl} {channelId : String} (h : Harmless channelId) :
    Confined chatUrl channelId ⟨chatUrl.origin.authority, escapedPath (locator (messagesEndpoint channelId)),
      after? '?' ((messagesEndpoint channelId).takeWhile (· ≠ '#')), after? '#' (messagesEndpoint channelId)⟩ := by
  have hno : ∀ mark ∈ ['?', '#', '%'], mark ∉ messagesEndpoint channelId := by
    intro mark hmark hmem
    have hc := h.marks mark ((mark_endpoint hmark channelId).1 hmem)
    simp only [List.mem_cons, List.not_mem_nil, or_false] at hmark
    rcases hmark with rfl | rfl | rfl
    · exact hc.2.1 rfl
    · exact hc.2.2.1 rfl
    · exact hc.2.2.2 rfl
  have hpercent : '%' ∉ channelId.toList := fun hmem => (h.marks _ hmem).2.2.2 rfl
  have hdecode : decode (escapedPath channelId.toList) = octets channelId.toList := by
    rw [decode_escapedPath, decode_of_unescaped (unescaped_of_no_percent hpercent)]
  refine ⟨rfl, ?_, ?_, escapedPath channelId.toList, ?_, hdecode, ?_, ?_⟩
  · exact after?_eq_none.2 fun hmem => hno '?' (by decide) ((List.takeWhile_subset _) hmem)
  · exact after?_eq_none.2 (hno '#' (by decide))
  · rw [slash_escapedPath hpercent]
    exact fun hmem => (h.marks _ hmem).1 rfl
  · rw [locator_eq_self_iff.2, escapedPath_endpoint hpercent]
    intro c hc
    exact ⟨by rintro rfl; exact hno '#' (by decide) hc, by rintro rfl; exact hno '?' (by decide) hc⟩
  · apply resolve_of_none
    intro seg hseg
    simp only [messagesSegments, List.mem_cons, List.not_mem_nil, or_false] at hseg
    rcases hseg with rfl | rfl | rfl
    · decide
    · -- a dot segment would be read back as one
      intro hdots
      apply h.dots
      rcases hdots with hdots | hdots
      · left
        apply octets_inj
        rw [← hdecode, hdots]
        decide +kernel
      · right
        apply octets_inj
        rw [← hdecode, hdots]
        decide +kernel
    · decide

theorem confined_harmless {chatUrl : ChatUrl} {channelId : String} (hbroken : ¬ Broken (locator (messagesEndpoint channelId)))
    (h : Confined chatUrl channelId ⟨chatUrl.origin.authority, escapedPath (locator (messagesEndpoint channelId)),
      after? '?' ((messagesEndpoint channelId).takeWhile (· ≠ '#')), after? '#' (messagesEndpoint channelId)⟩) :
    Harmless channelId := by
  obtain ⟨x, hslash, hdecode, hpath, hresolve⟩ := h.path
  have hfragment : '#' ∉ messagesEndpoint channelId := after?_eq_none.1 h.fragment
  have hquery : '?' ∉ messagesEndpoint channelId := by
    have hquery := after?_eq_none.1 h.query
    rwa [List.takeWhile_eq_self_iff.2] at hquery
    intro c hc
    simp only [ne_eq, decide_not, Bool.not_eq_eq_eq_not, Bool.not_true, decide_eq_false_iff_not]
    rintro rfl
    exact hfragment hc
  have hlocator : locator (messagesEndpoint channelId) = messagesEndpoint channelId := by
    apply locator_eq_self_iff.2
    intro c hc
    exact ⟨by rintro rfl; exact hfragment hc, by rintro rfl; exact hquery hc⟩
  rw [hlocator] at hbroken
  have hpath : escapedPath (messagesEndpoint channelId) = "/channels/".toList ++ x ++ "/messages".toList := by
    rw [← text_messagesSegments, ← hpath]
    simp only [hlocator]
  -- the path is read back as it was given, so nothing in it was percent-encoded
  have hread : decode (messagesEndpoint channelId) = octets (messagesEndpoint channelId) := by
    have hendpoint : messagesEndpoint channelId = "/channels/".toList ++ channelId.toList ++ '/' :: "messages".toList := by
      unfold messagesEndpoint
      rfl
    have hwritten : escapedPath (messagesEndpoint channelId) = "/channels/".toList ++ x ++ '/' :: "messages".toList := by
      rw [hpath]
      rfl
    rw [← decode_escapedPath, hwritten, hendpoint]
    exact decode_between (by decide) (by decide) (by decide) hdecode
  have hpercent : '%' ∉ messagesEndpoint channelId :=
    no_percent hbroken (unescaped_of_length (by rw [hread]))
  have hid : '%' ∉ channelId.toList := fun hmem => hpercent ((mark_endpoint (by decide) channelId).2 hmem)
  obtain rfl : escapedPath channelId.toList = x := by
    rw [escapedPath_endpoint hid, text_messagesSegments] at hpath
    exact List.append_cancel_left (List.append_cancel_right hpath)
  refine ⟨?_, ?_⟩
  · intro c hc
    refine ⟨?_, ?_, ?_, ?_⟩
    · rintro rfl
      exact hslash ((slash_escapedPath hid).2 hc)
    · rintro rfl
      exact hquery ((mark_endpoint (by decide) channelId).2 hc)
    · rintro rfl
      exact hfragment ((mark_endpoint (by decide) channelId).2 hc)
    · rintro rfl
      exact hid hc
  · intro hdots
    have hsame : escapedPath channelId.toList = channelId.toList := by
      rcases hdots with hdots | hdots <;> rw [hdots] <;> rfl
    rw [hsame] at hresolve
    rcases hdots with hdots | hdots
    · rw [hdots] at hresolve
      exact absurd hresolve (by decide)
    · rw [hdots] at hresolve
      exact absurd hresolve (by decide)

/-- **Frames stay in their channel.** The request of a `message.send`, if one is made, addresses the messages of its channel
exactly if the URL is refused or the channel id is harmless. -/
theorem issue_confined_iff (chatUrl : ChatUrl) (inMsg : InMsg) :
    (∀ r ∈ issue chatUrl inMsg, Confined chatUrl inMsg.channelId r) ↔
      Refused (messagesEndpoint inMsg.channelId) ∨ Harmless inMsg.channelId := by
  have hharmless : inMsg.channelId = "" → Harmless inMsg.channelId := by
    intro h
    rw [h]
    exact ⟨by simp, by decide⟩
  by_cases hne : inMsg.channelId = ""
  · refine iff_of_true ?_ (.inr (hharmless hne))
    intro r hr
    rw [issue, if_pos hne] at hr
    cases hr
  · have hissue : issue chatUrl inMsg = newRequest (chatUrl.origin.text ++ messagesEndpoint inMsg.channelId) := if_neg hne
    obtain ⟨path, hpath⟩ : ∃ path, messagesEndpoint inMsg.channelId = '/' :: path := ⟨_, rfl⟩
    by_cases hrefused : Refused (messagesEndpoint inMsg.channelId)
    · refine iff_of_true ?_ (.inl hrefused)
      intro r hr
      rw [hpath] at hrefused
      rw [hissue, hpath, newRequest_refused chatUrl hrefused] at hr
      cases hr
    · have haccepted := newRequest_accepted chatUrl (hpath ▸ hrefused)
      rw [← hpath] at haccepted
      rw [hissue, haccepted]
      simp only [Option.mem_def, Option.some.injEq, forall_eq', hrefused, false_or]
      exact ⟨confined_harmless fun hbroken => hrefused (.inr (.inl hbroken)), harmless_confined⟩

/-- `http://chat:8083` -/
def defaultChatUrl : ChatUrl where
  origin := ⟨"http".toList, "chat:8083".toList, List.forall_iff_forall_mem.1 (by decide)⟩
  printable := List.forall_iff_forall_mem.1 (by decide)

/-- a frame whose channel id leads to the attachments of a channel -/
def upload : InMsg := ⟨"message.send", "7/attachments?", none⟩

theorem steered :
    issue defaultChatUrl upload =
        some ⟨"chat:8083".toList, "/channels/7/attachments".toList, some "/messages".toList, none⟩ ∧
      ¬ ∀ r ∈ issue defaultChatUrl upload, Confined defaultChatUrl upload.channelId r := by
  have hissue : issue defaultChatUrl upload =
      some ⟨"chat:8083".toList, "/channels/7/attachments".toList, some "/messages".toList, none⟩ := by decide
  refine ⟨hissue, ?_⟩
  intro h
  exact absurd (h _ hissue).query (by decide)

end Concordia.Gateway
