/-
Who is notified of a mention (`publish_mentions`, `MENTION_RE` in `services/chat/src/handlers/messages.rs`, `registerUser` in
`AuthService.java`).

`Exact`: one event for each registered user whose username stands right after an at sign and ends there, and for nobody else.
Registration accepts any username; the expression captures one to 32 of `[A-Za-z0-9_]` and does not ask what comes after.

- `captured_iff`: a captured name is a plain one, and it ends there or is cut off a longer run.
- `mentions_exact_iff`: the events are exact if and only if every user who is mentioned has a plain username, and none is
  mistaken for the beginning of a longer run.
- `not_notified`: a username with a hyphen.
-/
import Mathlib.Data.List.TakeWhile
import Concordia.Chat.UserRegistry

namespace Concordia.Chat.UserRegistry

open Concordia.Lib
open Concordia.Servers (Uuid)

/-! ## Registered users -/

/-- registration accepts any username, once -/
structure Users where
  all : List UserRegisteredEvent
  usernames : (all.map UserRegisteredEvent.username).Nodup
  ids : (all.map UserRegisteredEvent.userId).Nodup

/-- the cache of a process that was given the event of every user -/
def Users.cache (users : Users) : UserCache := (users.all.map some).foldl (receive some) fun _ => none

/-- the username stands right after an at sign, and a character outside `[A-Za-z0-9_]` follows, or the end -/
def Mentioned (content username : String) : Prop :=
  ∃ before after, content.toList = before ++ '@' :: (username.toList ++ after) ∧ ∀ c ∈ after.head?, isWord c = false

structure Exact (users : Users) (content : String) (mentions : List Mention) : Prop where
  once : (mentions.map Mention.mentionedUserId).Nodup
  iff : ∀ userId, userId ∈ mentions.map Mention.mentionedUserId ↔
    ∃ user ∈ users.all, user.userId = userId ∧ Mentioned content user.username

/-! ## Condition -/

/-- one to 32 of `[A-Za-z0-9_]` -/
def Plain (username : String) : Prop :=
  username.toList ≠ [] ∧ username.toList.length ≤ 32 ∧ ∀ c ∈ username.toList, isWord c = true

/-- the username is the first 32 characters of a longer run of `[A-Za-z0-9_]` after an at sign -/
def Cut (content username : String) : Prop :=
  username.toList.length = 32 ∧ (∀ c ∈ username.toList, isWord c = true) ∧
    ∃ before c after, content.toList = before ++ '@' :: (username.toList ++ c :: after) ∧ isWord c = true

structure Clear (users : Users) (content : String) : Prop where
  plain : ∀ user ∈ users.all, Mentioned content user.username → Plain user.username
  uncut : ∀ user ∈ users.all, Cut content user.username → Mentioned content user.username

/-! ## What is captured -/

/-- `captures_iter`: the leftmost match, then the leftmost one after its end -/
def capturesIter : List Char → List String
  | [] => []
  | c :: cs =>
    let name := (cs.takeWhile isWord).take 32
    if c = '@' ∧ name ≠ [] then String.ofList name :: capturesIter (cs.drop name.length) else capturesIter cs
termination_by cs => cs.length
decreasing_by
  · rw [List.length_drop, List.length_cons]
    omega
  · rw [List.length_cons]
    omega

theorem captures_skip {w : List Char} (h : ∀ c ∈ w, c ≠ '@') (rest : List Char) : captures (w ++ rest) = captures rest := by
  induction w with
  | nil => rfl
  | cons c w ih =>
    have hc : c ≠ '@' := h c (List.mem_cons_self ..)
    rw [List.cons_append, captures, if_neg (by simp [hc])]
    exact ih fun d hd => h d (List.mem_cons_of_mem _ hd)

theorem isWord_ne_at {c : Char} (h : isWord c = true) : c ≠ '@' := by
  rintro rfl
  exact absurd h (by decide)

/-- a name has no at sign, so no match begins inside of another one -/
theorem capturesIter_eq (cs : List Char) : capturesIter cs = captures cs := by
  fun_induction capturesIter cs with
  | case1 => rfl
  | case2 c cs name h ih =>
    have hsplit : name ++ cs.drop name.length = cs := by
      have hbegins : name <+: cs := (List.take_prefix 32 _).trans (List.takeWhile_prefix isWord)
      exact List.prefix_iff_eq_append.1 hbegins
    have hskip : captures cs = captures (cs.drop name.length) := by
      conv_lhs => rw [← hsplit]
      apply captures_skip
      intro d hd
      exact isWord_ne_at (List.mem_takeWhile_imp (List.mem_of_mem_take hd))
    rw [captures, if_pos h, ih, hskip]
  | case3 c cs name h ih => rw [captures, if_neg h, ih]

/-- a captured name is the first 32 characters of the run after an at sign -/
theorem mem_captures {cs : List Char} {name : String} : name ∈ captures cs ↔ name.toList ≠ [] ∧
    ∃ before rest, cs = before ++ '@' :: rest ∧ name.toList = (rest.takeWhile isWord).take 32 := by
  induction cs with
  | nil => simp [captures]
  | cons c cs ih =>
    -- the match begins here, or later
    have hsplit : (∃ before rest, c :: cs = before ++ '@' :: rest ∧ name.toList = (rest.takeWhile isWord).take 32) ↔
        (c = '@' ∧ name.toList = (cs.takeWhile isWord).take 32) ∨
          ∃ before rest, cs = before ++ '@' :: rest ∧ name.toList = (rest.takeWhile isWord).take 32 := by
      refine ⟨?_, ?_⟩
      · rintro ⟨before, rest, hcs, hname⟩
        cases before with
        | nil =>
          obtain ⟨rfl, rfl⟩ := List.cons.inj hcs
          exact .inl ⟨rfl, hname⟩
        | cons b before => exact .inr ⟨before, rest, (List.cons.inj hcs).2, hname⟩
      · rintro (⟨rfl, hname⟩ | ⟨before, rest, rfl, hname⟩)
        · exact ⟨[], cs, rfl, hname⟩
        · exact ⟨c :: before, rest, rfl, hname⟩
    have hofList : ∀ l : List Char, name = String.ofList l ↔ name.toList = l := by
      intro l
      rw [String.ext_iff, String.toList_ofList]
    rw [hsplit, captures]
    split_ifs with h
    · rw [List.mem_cons, ih, hofList, and_or_left]
      apply or_congr_left
      refine ⟨fun hname => ⟨hname ▸ h.2, h.1, hname⟩, fun hname => hname.2.2⟩
    · rw [ih, and_or_left, or_iff_right]
      rintro ⟨hne, rfl, hname⟩
      exact h ⟨rfl, hname ▸ hne⟩

/-- the run after an at sign ends where a character outside `[A-Za-z0-9_]` follows -/
theorem takeWhile_name {name after : List Char} (hname : ∀ c ∈ name, isWord c = true)
    (hafter : ∀ c ∈ after.head?, isWord c = false) : (name ++ after).takeWhile isWord = name := by
  rw [List.takeWhile_append_of_pos hname]
  cases after with
  | nil => simp
  | cons c after => simp [hafter c rfl]

/-- **Captures.** A username is captured exactly if it is plain, and it is mentioned or cut off a longer run. -/
theorem captured_iff {content username : String} :
    username ∈ usernames content ↔ Plain username ∧ (Mentioned content username ∨ Cut content username) := by
  rw [usernames, List.mem_dedup, mem_captures]
  refine ⟨?_, ?_⟩
  · rintro ⟨hne, before, rest, hcontent, hname⟩
    have hword : ∀ c ∈ username.toList, isWord c = true := by
      intro c hc
      rw [hname] at hc
      exact List.mem_takeWhile_imp (List.mem_of_mem_take hc)
    refine ⟨⟨hne, by rw [hname]; exact List.length_take_le _ _, hword⟩, ?_⟩
    have hrest : rest = username.toList ++ ((rest.takeWhile isWord).drop 32 ++ rest.dropWhile isWord) := by
      rw [hname, ← List.append_assoc, List.take_append_drop, List.takeWhile_append_dropWhile]
    cases hdrop : (rest.takeWhile isWord).drop 32 with
    | nil =>
      -- the whole run is captured
      rw [hdrop, List.nil_append] at hrest
      refine .inl ⟨before, rest.dropWhile isWord, by rw [← hrest]; exact hcontent, ?_⟩
      intro c hc
      have := List.head?_dropWhile_not isWord rest
      rw [Option.mem_def.1 hc] at this
      simpa using this
    | cons c tail =>
      rw [hdrop] at hrest
      have hlong : 32 < (rest.takeWhile isWord).length := by
        have := congrArg List.length hdrop
        simp only [List.length_drop, List.length_cons] at this
        omega
      refine .inr ⟨by rw [hname, List.length_take]; omega, hword, before, c, tail ++ rest.dropWhile isWord, ?_, ?_⟩
      · rw [hcontent]
        conv_lhs => rw [hrest]
        rfl
      · have hc : c ∈ (rest.takeWhile isWord).drop 32 := by simp [hdrop]
        exact List.mem_takeWhile_imp (List.mem_of_mem_drop hc)
  · rintro ⟨⟨hne, hlength, hword⟩, ⟨before, after, hcontent, hafter⟩ | ⟨hcut, -, before, c, after, hcontent, hc⟩⟩
    · refine ⟨hne, before, _, hcontent, ?_⟩
      rw [takeWhile_name hword hafter, List.take_of_length_le hlength]
    · refine ⟨hne, before, _, hcontent, ?_⟩
      rw [List.takeWhile_append_of_pos hword, ← hcut, List.take_left']
      rfl

/-! ## Who is notified -/

/-- what is in the cache was there, or was received -/
theorem received_of_cache {β : Type*} {fromSlice : β → Option UserRegisteredEvent} {msgs : List (Option β)}
    {cache : UserCache} {username : String} {userId : Uuid}
    (h : msgs.foldl (receive fromSlice) cache username = some userId) :
    cache username = some userId ∨ ∃ msg ∈ msgs, wellFormed fromSlice msg = some ⟨userId, username⟩ := by
  induction msgs generalizing cache with
  | nil => exact .inl h
  | cons msg msgs ih =>
    rcases ih h with hcache | ⟨msg', hmsg', hwell⟩
    · rw [receive_eq] at hcache
      cases hwell : wellFormed fromSlice msg with
      | none =>
        rw [hwell] at hcache
        exact .inl hcache
      | some ev =>
        rw [hwell] at hcache
        rcases update_cases hcache with ⟨rfl, hid⟩ | ⟨-, hold⟩
        · obtain rfl := Option.some.inj hid
          exact .inr ⟨msg, List.mem_cons_self .., hwell⟩
        · exact .inl hold
    · exact .inr ⟨msg', List.mem_cons_of_mem _ hmsg', hwell⟩

theorem cache_iff (users : Users) {username : String} {userId : Uuid} :
    users.cache username = some userId ↔ ⟨userId, username⟩ ∈ users.all := by
  have hname : ∀ user ∈ users.all, ∀ user' ∈ users.all, user'.username = user.username → user' = user := by
    intro user hu user' hu' heq
    exact List.inj_on_of_nodup_map users.usernames hu' hu heq
  -- a user that was received is known under the id of the user
  have hknown : ∀ user ∈ users.all, users.cache user.username = some user.userId := by
    intro user hu
    refine foldl_receive ?_ ⟨some user, List.mem_map_of_mem hu, rfl⟩ _
    intro msg hmsg user' hwell heq
    obtain ⟨user'', hu'', rfl⟩ := List.mem_map.1 hmsg
    obtain rfl : user'' = user' := Option.some.inj hwell
    rw [hname user hu user'' hu'' heq]
  refine ⟨?_, fun hu => hknown _ hu⟩
  intro hcache
  rcases received_of_cache hcache with hnone | ⟨msg, hmsg, hwell⟩
  · cases hnone
  · obtain ⟨user, hu, rfl⟩ := List.mem_map.1 hmsg
    exact Option.some.inj hwell ▸ hu

/-- the users whose names are captured -/
theorem mem_mentioned {users : Users} {mentionId : String → Uuid} {messageId channelId userId : Uuid}
    {serverId : Option Uuid} {content : String} {createdAt : ℤ} :
    userId ∈ (publishMentions users.cache mentionId messageId channelId serverId content createdAt).map
        Mention.mentionedUserId ↔ ∃ user ∈ users.all, user.userId = userId ∧ user.username ∈ usernames content := by
  simp only [publishMentions, List.mem_map, List.mem_filterMap, Option.map_eq_some_iff]
  refine ⟨?_, ?_⟩
  · rintro ⟨mention, ⟨username, hname, id, hcache, rfl⟩, rfl⟩
    exact ⟨_, (cache_iff users).1 hcache, rfl, hname⟩
  · rintro ⟨user, huser, rfl, hname⟩
    exact ⟨_, ⟨user.username, hname, user.userId, (cache_iff users).2 huser, rfl⟩, rfl⟩

theorem mentioned_once {users : Users} {mentionId : String → Uuid} {messageId channelId : Uuid}
    {serverId : Option Uuid} {content : String} {createdAt : ℤ} :
    ((publishMentions users.cache mentionId messageId channelId serverId content createdAt).map
        Mention.mentionedUserId).Nodup := by
  have hids : (publishMentions users.cache mentionId messageId channelId serverId content createdAt).map
      Mention.mentionedUserId = (usernames content).filterMap users.cache := by
    simp only [publishMentions, List.map_filterMap, Option.map_map]
    apply List.filterMap_congr
    intro username _
    exact Option.map_id'
  rw [hids]
  apply List.Nodup.filterMap ?_ (List.nodup_dedup _)
  intro username username' userId hcache hcache'
  -- two names of one user are the same
  have hsame := List.inj_on_of_nodup_map users.ids ((cache_iff users).1 hcache) ((cache_iff users).1 hcache') rfl
  exact congrArg UserRegisteredEvent.username hsame

/-- **Mentions.** The events of a message are exact if and only if every user who is mentioned has a plain username, and no
username is only the beginning of a longer run. -/
theorem mentions_exact_iff (users : Users) (mentionId : String → Uuid) (messageId channelId : Uuid)
    (serverId : Option Uuid) (content : String) (createdAt : ℤ) :
    Exact users content (publishMentions users.cache mentionId messageId channelId serverId content createdAt) ↔
      Clear users content := by
  -- the ids tell the users apart
  have huser : ∀ user ∈ users.all, ∀ user' ∈ users.all, user'.userId = user.userId → user' = user := by
    intro user hu user' hu' hid
    exact List.inj_on_of_nodup_map users.ids hu' hu hid
  refine ⟨?_, ?_⟩
  · intro h
    have hiff : ∀ user ∈ users.all, user.username ∈ usernames content ↔ Mentioned content user.username := by
      intro user hu
      have hevent := (mem_mentioned.symm.trans (h.iff user.userId))
      refine ⟨?_, ?_⟩
      · intro hname
        obtain ⟨user', hu', hid, hmentioned⟩ := hevent.1 ⟨user, hu, rfl, hname⟩
        exact huser user hu user' hu' hid ▸ hmentioned
      · intro hmentioned
        obtain ⟨user', hu', hid, hname⟩ := hevent.2 ⟨user, hu, rfl, hmentioned⟩
        exact huser user hu user' hu' hid ▸ hname
    refine ⟨?_, ?_⟩
    · intro user hu hmentioned
      exact (captured_iff.1 ((hiff user hu).2 hmentioned)).1
    · intro user hu hcut
      have hplain : Plain user.username := ⟨fun hnil => by simp [Cut, hnil] at hcut, hcut.1.le, hcut.2.1⟩
      exact (hiff user hu).1 (captured_iff.2 ⟨hplain, .inr hcut⟩)
  · intro h
    refine ⟨mentioned_once, ?_⟩
    intro userId
    rw [mem_mentioned]
    refine exists_congr fun user => and_congr_right fun hu => and_congr_right fun _ => ?_
    rw [captured_iff]
    refine ⟨?_, ?_⟩
    · rintro ⟨-, hmentioned | hcut⟩
      · exact hmentioned
      · exact h.uncut user hu hcut
    · exact fun hmentioned => ⟨h.plain user hu hmentioned, .inl hmentioned⟩

/-- one user, with a hyphen in the name -/
def jeanLuc : Users := ⟨[⟨7, "jean-luc"⟩], by simp, by simp⟩

theorem not_notified : ¬ Exact jeanLuc "hello @jean-luc"
    (publishMentions jeanLuc.cache (fun _ => 1) 2 3 none "hello @jean-luc" 0) := by
  intro h
  have hmentioned : Mentioned "hello @jean-luc" "jean-luc" := ⟨"hello ".toList, [], by decide, nofun⟩
  have hnames : usernames "hello @jean-luc" = ["jean"] := by decide
  have hevent := (h.iff 7).2 ⟨⟨7, "jean-luc"⟩, List.mem_singleton_self _, rfl, hmentioned⟩
  simp [publishMentions, hnames, Users.cache, jeanLuc, receive] at hevent

end Concordia.Chat.UserRegistry
