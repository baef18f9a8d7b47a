/-
Which upstream gets an authenticated request (`router` and `isChatPath` in `services/gateway/server.go`, modelled in
`Gateway.Access`), against the segments of its path.

`BySegments`: the first segment decides, and a channel's messages and attachments are chat's; every other path is answered
404. The router compares prefixes of the whole path instead, so that a longer first segment passes for the name it begins
with, and `isChatPath` does not ask for a channel id.

- `prefix_iff`: a prefix without a second slash is a prefix of the first segment.
- `isChatPath_iff`: chat's paths.
- `routed_iff`: a request is routed by its segments exactly if its path consists of whole segments.
- `lookalike_routed`: a path below `/serversX` reaches servers.
-/
import Mathlib.Data.List.TakeWhile
import Concordia.Gateway.Access

namespace Concordia.Gateway

open Concordia.Lib.ServeMux

/-! ## Segments -/

/-- the segment after the first slash -/
def firstSegment? : List Char → Option (List Char)
  | '/' :: rest => some (rest.takeWhile (· ≠ '/'))
  | _ => none

/-- the first segments that are routed -/
def routedNames : List (List Char) :=
  ["auth".toList, "users".toList, "servers".toList, "channels".toList, "voice".toList, "tips".toList, "presence".toList]

/-- `/channels/{id}/` and a segment that begins with messages or attachments -/
def ChatPath (path : List Char) : Prop :=
  ∃ id rest, id ≠ [] ∧ '/' ∉ id ∧ path = "/channels/".toList ++ id ++ '/' :: rest ∧
    ("messages".toList <+: rest ∨ "attachments".toList <+: rest)

def First (path : List Char) (names : List (List Char)) : Prop := ∃ name ∈ names, firstSegment? path = some name

/-- the request is proxied to this upstream, and to no other -/
def Proxied (out : Answer × List Effect) (u : Upstream) : Prop := out = (.routed u, [.contact u])

/-- the destination of a request by the segments of its path -/
structure BySegments (path : List Char) (out : Answer × List Effect) : Prop where
  chat : Proxied out .chat ↔ ChatPath path
  auth : Proxied out .auth ↔ First path ["auth".toList, "users".toList]
  servers : Proxied out .servers ↔ First path ["servers".toList, "channels".toList] ∧ ¬ ChatPath path
  voice : Proxied out .voice ↔ First path ["voice".toList]
  tips : Proxied out .tips ↔ First path ["tips".toList]
  presence : Proxied out .presence ↔ First path ["presence".toList]
  notFound : out = (.noRoute, []) ↔ ¬ First path routedNames

/-- the first segment is none that only begins with a name, and the channel's id is not empty -/
structure WholeSegments (path : List Char) : Prop where
  first : ∀ name ∈ routedNames, ∀ seg ∈ firstSegment? path, name <+: seg → seg = name
  id : ∀ sub ∈ ["messages".toList, "attachments".toList], ¬ "/channels//".toList ++ sub <+: path

/-! ## Prefixes of a path -/

theorem prefix_takeWhile_iff {name rest : List Char} (h : '/' ∉ name) :
    name <+: rest.takeWhile (· ≠ '/') ↔ name <+: rest := by
  refine ⟨fun hp => hp.trans (List.takeWhile_prefix _), ?_⟩
  rintro ⟨tail, rfl⟩
  have hname : name.takeWhile (· ≠ '/') = name := by
    rw [List.takeWhile_eq_self_iff]
    intro c hc
    simp only [ne_eq, decide_not, Bool.not_eq_eq_eq_not, Bool.not_true, decide_eq_false_iff_not]
    rintro rfl
    exact h hc
  rw [List.takeWhile_append_of_pos (by simpa using List.takeWhile_eq_self_iff.1 hname)]
  exact List.prefix_append _ _

/-- a prefix without a second slash is one of the first segment -/
theorem prefix_iff {name path : List Char} (h : '/' ∉ name) :
    ('/' :: name).isPrefixOf path = true ↔ ∃ seg, firstSegment? path = some seg ∧ name <+: seg := by
  rw [List.isPrefixOf_iff_prefix]
  unfold firstSegment?
  split
  · next rest =>
    rw [List.cons_prefix_cons]
    simp only [true_and, Option.some.injEq, exists_eq_left']
    exact (prefix_takeWhile_iff h).symm
  · next hno =>
    simp only [reduceCtorEq, false_and, exists_false, iff_false]
    rintro ⟨tail, rfl⟩
    exact hno _ rfl

/-! ## Chat's paths -/

/-- what `isChatPath` looks for: the id may be empty -/
theorem isChatPath_iff {path : List Char} :
    isChatPath path = true ↔ ∃ id rest, '/' ∉ id ∧ path = "/channels/".toList ++ id ++ '/' :: rest ∧
      ("messages".toList <+: rest ∨ "attachments".toList <+: rest) := by
  unfold isChatPath
  rw [Bool.and_eq_true, List.isPrefixOf_iff_prefix]
  refine ⟨?_, ?_⟩
  · intro h
    obtain ⟨⟨after, rfl⟩, hsub⟩ := h
    have hdrop : ("/channels/".toList ++ after).drop 10 = after := rfl
    rw [hdrop] at hsub
    have hsplit := List.takeWhile_append_dropWhile (p := (· ≠ '/')) (l := after)
    have hid : '/' ∉ after.takeWhile (· ≠ '/') := fun hmem => by simpa using List.mem_takeWhile_imp hmem
    cases htail : after.dropWhile (· ≠ '/') with
    | nil =>
      rw [htail] at hsub
      cases hsub
    | cons slash rest =>
      rw [htail] at hsub hsplit
      have hslash : slash = '/' := by
        have hhead := List.head?_dropWhile_not (· ≠ '/') after
        rw [htail] at hhead
        simpa using hhead
      subst hslash
      refine ⟨_, rest, hid, by rw [List.append_assoc, hsplit], ?_⟩
      simpa only [Bool.or_eq_true, List.isPrefixOf_iff_prefix] using hsub
  · intro h
    obtain ⟨id, rest, hid, rfl, hsub⟩ := h
    have hdrop : ("/channels/".toList ++ id ++ '/' :: rest).drop 10 = id ++ '/' :: rest := rfl
    have htail : (id ++ '/' :: rest).dropWhile (· ≠ '/') = '/' :: rest := by
      rw [List.dropWhile_append_of_pos]
      · simp
      · intro c hc
        simp only [ne_eq, decide_not, Bool.not_eq_eq_eq_not, Bool.not_true, decide_eq_false_iff_not]
        rintro rfl
        exact hid hc
    refine ⟨⟨id ++ '/' :: rest, (List.append_assoc _ _ _).symm⟩, ?_⟩
    rw [hdrop, htail]
    simpa only [Bool.or_eq_true, List.isPrefixOf_iff_prefix] using hsub

theorem chatPath_iff {path : List Char} :
    ChatPath path ↔ isChatPath path = true ∧
      ∀ sub ∈ ["messages".toList, "attachments".toList], ¬ "/channels//".toList ++ sub <+: path := by
  rw [isChatPath_iff]
  refine ⟨?_, ?_⟩
  · intro h
    obtain ⟨id, rest, hne, hid, rfl, hsub⟩ := h
    refine ⟨⟨id, rest, hid, rfl, hsub⟩, ?_⟩
    intro sub _ hempty
    -- the character after the second slash is the id's first
    cases id with
    | nil => exact hne rfl
    | cons c id =>
      obtain ⟨tail, htail⟩ := hempty
      have hslash : c = '/' := by
        have hat := congrArg (fun cs : List Char => cs[10]?) htail
        simpa [eq_comm] using hat
      rw [hslash] at hid
      exact hid List.mem_cons_self
  · intro h
    obtain ⟨⟨id, rest, hid, rfl, hsub⟩, hempty⟩ := h
    refine ⟨id, rest, ?_, hid, rfl, hsub⟩
    rintro rfl
    rcases hsub with hsub | hsub
    · exact hempty _ (by simp) (List.prefix_append_right_inj "/channels//".toList |>.2 hsub)
    · exact hempty _ (by simp) (List.prefix_append_right_inj "/channels//".toList |>.2 hsub)

theorem chatPath_first {path : List Char} (h : isChatPath path = true) : firstSegment? path = some "channels".toList := by
  obtain ⟨id, rest, -, rfl, -⟩ := isChatPath_iff.1 h
  simp [firstSegment?]

/-! ## The route of a path -/

/-- where a first segment leads when the path is not chat's -/
def upstreamOf (name : List Char) : Option Upstream :=
  if name = "auth".toList ∨ name = "users".toList then some .auth
  else if name = "servers".toList ∨ name = "channels".toList then some .servers
  else if name = "voice".toList then some .voice
  else if name = "tips".toList then some .tips
  else if name = "presence".toList then some .presence
  else none

theorem no_slash_name : ∀ name ∈ routedNames, '/' ∉ name := by decide

/-- no routed name begins with another one -/
theorem names_apart : ∀ name ∈ routedNames, ∀ other ∈ routedNames, other <+: name → other = name := by decide

/-- a segment begins with one routed name at most -/
theorem begins_eq {path seg name other : List Char} (hn : name ∈ routedNames) (ho : other ∈ routedNames)
    (hseg : firstSegment? path = some seg) (hp : name <+: seg) :
    ('/' :: other).isPrefixOf path = decide (other = name) := by
  have hiff := @prefix_iff other path (no_slash_name other ho)
  simp only [hseg, Option.some.injEq, exists_eq_left'] at hiff
  rw [Bool.eq_iff_iff, hiff, decide_eq_true_iff]
  refine ⟨?_, ?_⟩
  · intro hother
    rcases List.prefix_or_prefix_of_prefix hother hp with h | h
    · exact names_apart name hn other ho h
    · exact (names_apart other ho name hn h).symm
  · intro h
    rw [h]
    exact hp

/-- `router` when it is known with which names the path begins -/
theorem router_of {path : List Char} {begins : List Char → Bool}
    (h : ∀ name ∈ routedNames, ('/' :: name).isPrefixOf path = begins name) :
    router path =
      if begins "auth".toList then some .auth
      else if begins "users".toList then some .auth
      else if isChatPath path then some .chat
      else if begins "servers".toList || begins "channels".toList then some .servers
      else if begins "voice".toList then some .voice
      else if begins "tips".toList then some .tips
      else if begins "presence".toList then some .presence
      else none := by
  unfold router
  rw [show "/auth".toList.isPrefixOf path = begins "auth".toList from h _ (by decide),
    show "/users".toList.isPrefixOf path = begins "users".toList from h _ (by decide),
    show "/servers".toList.isPrefixOf path = begins "servers".toList from h _ (by decide),
    show "/channels".toList.isPrefixOf path = begins "channels".toList from h _ (by decide),
    show "/voice".toList.isPrefixOf path = begins "voice".toList from h _ (by decide),
    show "/tips".toList.isPrefixOf path = begins "tips".toList from h _ (by decide),
    show "/presence".toList.isPrefixOf path = begins "presence".toList from h _ (by decide)]

theorem router_chat {path : List Char} (h : isChatPath path = true) : router path = some .chat := by
  rw [router_of fun other ho => begins_eq (by decide) ho (chatPath_first h) List.prefix_rfl, h]
  rfl

theorem router_begins {path seg name : List Char} (hn : name ∈ routedNames) (hseg : firstSegment? path = some seg)
    (hp : name <+: seg) (hchat : isChatPath path = false) : router path = upstreamOf name := by
  rw [router_of fun other ho => begins_eq hn ho hseg hp, hchat]
  clear hp
  revert name
  decide

theorem router_none {path : List Char} (h : ∀ name ∈ routedNames, ∀ seg ∈ firstSegment? path, ¬ name <+: seg) :
    router path = none := by
  have hnone : ∀ name ∈ routedNames, ('/' :: name).isPrefixOf path = false := by
    intro name hn
    rw [← Bool.not_eq_true, prefix_iff (no_slash_name name hn)]
    intro hbegins
    obtain ⟨seg, hseg, hp⟩ := hbegins
    exact h name hn seg hseg hp
  have hchat : isChatPath path = false := by
    rw [← Bool.not_eq_true]
    intro hc
    exact h "channels".toList (by decide) _ (chatPath_first hc) List.prefix_rfl
  rw [router_of hnone, hchat]
  rfl

/-! ## Requests -/

/-- the catch-all route has the request, with a valid token and within the rate limit -/
structure Reaches (env : Env) (r : Request) (userId : String) : Prop where
  method : r.method ≠ "OPTIONS"
  route : find patterns r.method r.path = .handler .all
  token : tokenOf r ≠ ""
  valid : env.validateJWT (tokenOf r) = some userId
  free : env.limited userId = false

/-- what `router` does with the request -/
def answerOf : Option Upstream → Answer × List Effect
  | some u => (.routed u, [.contact u])
  | none => (.noRoute, [])

theorem serve_reaches {env : Env} {r : Request} {userId : String} (h : Reaches env r userId) :
    serve env r = answerOf (router (unescape r.path)) := by
  rw [serve_found h.method h.route]
  show requireAuth env r (limitedRouter env r) = _
  unfold requireAuth limitedRouter
  rw [if_neg h.token, h.valid]
  simp only [h.free, Bool.false_eq_true, if_false]
  cases router (unescape r.path) with
  | none => rfl
  | some u => rfl

@[simp] theorem proxied_answerOf {o : Option Upstream} {u : Upstream} : Proxied (answerOf o) u ↔ o = some u := by
  cases o with
  | none => simp [Proxied, answerOf]
  | some v => simp [Proxied, answerOf]

@[simp] theorem answerOf_noRoute {o : Option Upstream} : answerOf o = (.noRoute, []) ↔ o = none := by
  cases o with
  | none => simp [answerOf]
  | some v => simp [answerOf]

/-- the router follows the segments of the paths that consist of whole segments -/
theorem bySegments_whole {path : List Char} (h : WholeSegments path) : BySegments path (answerOf (router path)) := by
  by_cases hchat : isChatPath path = true
  · have hpath : ChatPath path := chatPath_iff.2 ⟨hchat, h.id⟩
    have hseg := chatPath_first hchat
    rw [router_chat hchat]
    constructor <;> simp [First, routedNames, hseg, hpath]
  · have hpath : ¬ ChatPath path := fun hp => hchat (chatPath_iff.1 hp).1
    rw [Bool.not_eq_true] at hchat
    by_cases hname : First path routedNames
    · obtain ⟨name, hn, hseg⟩ := hname
      rw [router_begins hn hseg List.prefix_rfl hchat]
      simp only [routedNames, List.mem_cons, List.not_mem_nil, or_false] at hn
      rcases hn with rfl | rfl | rfl | rfl | rfl | rfl | rfl <;>
        constructor <;> simp [First, routedNames, upstreamOf, hseg, hpath]
    · have hnone : router path = none := by
        apply router_none
        intro name hn seg hseg hp
        rw [h.first name hn seg hseg hp] at hseg
        exact hname ⟨name, hn, hseg⟩
      have hno : ∀ names ⊆ routedNames, ¬ First path names := by
        intro names hsub hfirst
        obtain ⟨name, hn, hseg⟩ := hfirst
        exact hname ⟨name, hsub hn, hseg⟩
      have hiff : ∀ {u P}, ¬ P → (Proxied (answerOf none) u ↔ P) := by
        intro u P hP
        rw [proxied_answerOf]
        exact ⟨nofun, fun h => absurd h hP⟩
      rw [hnone]
      constructor
      · exact hiff hpath
      · exact hiff (hno _ (by decide))
      · exact hiff fun hservers => hno _ (by decide) hservers.1
      · exact hiff (hno _ (by decide))
      · exact hiff (hno _ (by decide))
      · exact hiff (hno _ (by decide))
      · exact ⟨fun _ => hname, fun _ => rfl⟩

theorem whole_bySegments {path : List Char} (h : BySegments path (answerOf (router path))) : WholeSegments path := by
  constructor
  · intro name hn seg hseg hp
    -- a first segment that is itself routed is the name it begins with
    have hsame : ∀ names ⊆ routedNames, First path names → seg = name := by
      intro names hsub hfirst
      obtain ⟨other, ho, hother⟩ := hfirst
      obtain rfl : seg = other := by simpa [Option.mem_def.1 hseg] using hother
      exact (names_apart seg (hsub ho) name hn hp).symm
    cases hchat : isChatPath path with
    | true => exact hsame ["channels".toList] (by decide) ⟨_, by simp, chatPath_first hchat⟩
    | false =>
      have hrouter := router_begins hn hseg hp hchat
      simp only [routedNames, List.mem_cons, List.not_mem_nil, or_false] at hn
      rcases hn with rfl | rfl | rfl | rfl | rfl | rfl | rfl
      · exact hsame _ (by decide) (h.auth.1 (proxied_answerOf.2 hrouter))
      · exact hsame _ (by decide) (h.auth.1 (proxied_answerOf.2 hrouter))
      · exact hsame _ (by decide) (h.servers.1 (proxied_answerOf.2 hrouter)).1
      · exact hsame _ (by decide) (h.servers.1 (proxied_answerOf.2 hrouter)).1
      · exact hsame _ (by decide) (h.voice.1 (proxied_answerOf.2 hrouter))
      · exact hsame _ (by decide) (h.tips.1 (proxied_answerOf.2 hrouter))
      · exact hsame _ (by decide) (h.presence.1 (proxied_answerOf.2 hrouter))
  · intro sub hsub hempty
    have hchat : isChatPath path = true := by
      obtain ⟨tail, rfl⟩ := hempty
      refine isChatPath_iff.2 ⟨[], sub ++ tail, List.not_mem_nil, by simp, ?_⟩
      simp only [List.mem_cons, List.not_mem_nil, or_false] at hsub
      rcases hsub with rfl | rfl
      · exact .inl (List.prefix_append _ _)
      · exact .inr (List.prefix_append _ _)
    have hpath := h.chat.1 (proxied_answerOf.2 (router_chat hchat))
    exact (chatPath_iff.1 hpath).2 sub hsub hempty

/-- **Which upstream gets a request.** An authenticated request that comes to the catch-all route is routed by the segments
of its path iff the path consists of whole segments. -/
theorem routed_iff {env : Env} {r : Request} {userId : String} (h : Reaches env r userId) :
    BySegments (unescape r.path) (serve env r) ↔ WholeSegments (unescape r.path) := by
  rw [serve_reaches h]
  exact ⟨whole_bySegments, bySegments_whole⟩

/-- every token is alice's -/
def aliceOnly : Env where
  validateJWT _ := some "alice"
  limited _ := false
  backplane := false
  redisUp := true
  conns := []
  replicas := [[]]

def get (path : String) : Request := ⟨"GET", path.toList, "Bearer t", "", none⟩

instance (path : List Char) : Decidable (WholeSegments path) :=
  decidable_of_iff ((∀ name ∈ routedNames, ∀ seg ∈ firstSegment? path, name <+: seg → seg = name) ∧
    ∀ sub ∈ ["messages".toList, "attachments".toList], ¬ "/channels//".toList ++ sub <+: path)
    ⟨fun h => ⟨h.1, h.2⟩, fun h => ⟨h.1, h.2⟩⟩

theorem get_reaches_messages : Reaches aliceOnly (get "/channels/c1/messages") "alice" :=
  ⟨by decide, by decide, by decide, rfl, rfl⟩

/-- a channel's messages are chat's -/
theorem messages_routed : BySegments (unescape (get "/channels/c1/messages").path)
    (serve aliceOnly (get "/channels/c1/messages")) :=
  (routed_iff get_reaches_messages).2 (by decide)

/-- `/serversX` is no route, and its requests go to servers -/
theorem lookalike_routed : Reaches aliceOnly (get "/serversX") "alice" ∧
    Proxied (serve aliceOnly (get "/serversX")) .servers ∧
    ¬ BySegments (unescape (get "/serversX").path) (serve aliceOnly (get "/serversX")) := by
  refine ⟨⟨by decide, by decide, by decide, rfl, rfl⟩, by unfold Proxied; decide, ?_⟩
  intro h
  have hfirst := (h.servers.1 (by unfold Proxied; decide)).1
  unfold First at hfirst
  revert hfirst
  decide

end Concordia.Gateway
