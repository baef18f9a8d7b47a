/-
The url that `upload_attachment` answers (`services/chat/src/handlers/attachments.rs`), read as a URL.

The file is stored under `<channel_id>/<attachment_id>/<filename>`, and the filename that the client has sent stands in the
url as it is. The public endpoint and the bucket are those of a deployment (`Storage`): an endpoint is a scheme, an authority
and perhaps a path.

- `RoundTrip`: the url addresses the object that was stored, and no other.
- `upload_iff`: in every run, the url of an accepted upload does so exactly if no character of the filename means anything
  in a path (`Lib.Url.Literal`): no number sign, no question mark, no percent sign before two hexadecimal digits, and no
  segment of one or two dots.
- `cut_at_fragment`: a file that its url does not reach.
-/
import Concordia.Lib.Url
import Concordia.Chat.Requests

namespace Concordia.Chat.Requests

open Concordia.Lib Concordia.Lib.Url
open Concordia.Servers (Uuid)

/-! ## Where files are stored -/

structure Storage where
  cfg : Config
  origin : Origin
  authority : origin.authority ≠ []
  /-- the path of the public endpoint -/
  path : List Segment
  plain : ∀ seg ∈ path, seg ≠ [] ∧ '/' ∉ seg ∧ Literal seg
  slashes : ℕ
  endpoint : cfg.s3PublicEndpoint.toList = origin.text ++ text path ++ List.replicate slashes '/'
  bucket : Literal cfg.s3Bucket.toList

variable (st : Storage)

/-- the path of an object: the endpoint's, the bucket, and the key -/
def Storage.objectPath (key : String) : List UInt8 :=
  octets (text st.path ++ '/' :: (st.cfg.s3Bucket.toList ++ '/' :: key.toList))

structure RoundTrip (url key : String) : Prop where
  path : address url.toList = st.objectPath key
  only : ∀ key', address url.toList = st.objectPath key' → key' = key

theorem objectPath_inj {key key' : String} (h : st.objectPath key = st.objectPath key') : key = key' := by
  have hlist := List.append_cancel_left (octets_inj h)
  have hkey := List.append_cancel_left (List.cons.inj hlist).2
  exact String.toList_injective (List.cons.inj hkey).2

/-! ## The url of a key -/

/-- `trim_end_matches` takes the slashes off -/
theorem trimEndSlashes_append {s : String} {cs : List Char} {n : ℕ} (h : s.toList = cs ++ List.replicate n '/')
    (hlast : ∀ c ∈ cs.getLast?, c ≠ '/') : (trimEndSlashes s).toList = cs := by
  rw [trimEndSlashes, String.toList_ofList, h, List.reverse_append, List.reverse_replicate]
  rw [List.dropWhile_append_of_pos (by simp)]
  rcases List.eq_nil_or_concat' cs with rfl | ⟨init, last, rfl⟩
  · rfl
  · have hne : last ≠ '/' := hlast last (by simp)
    simp [hne]

theorem mem_of_getLast?_append {a b : List Char} (hb : b ≠ []) {c : Char} (h : c ∈ (a ++ b).getLast?) : c ∈ b := by
  rw [Option.mem_def, List.getLast?_append_of_ne_nil _ hb] at h
  exact List.mem_of_getLast? h

/-- the endpoint ends with its authority, or with a segment -/
theorem getLast?_endpoint : ∀ c ∈ (st.origin.text ++ text st.path).getLast?, c ≠ '/' := by
  rintro c hc rfl
  rcases List.eq_nil_or_concat' st.path with hnil | ⟨init, seg, hconcat⟩
  · have hsplit : st.origin.text ++ text st.path = (st.origin.scheme ++ [':', '/', '/']) ++ st.origin.authority := by
      simp [hnil, text, Origin.text]
    rw [hsplit] at hc
    have hslash := mem_of_getLast?_append st.authority hc
    exact (st.origin.plain '/' (List.mem_append_right _ hslash)).1 rfl
  · have hsplit : st.origin.text ++ text st.path = (st.origin.text ++ text init ++ ['/']) ++ seg := by
      simp [hconcat, text]
    have hseg := st.plain seg (by rw [hconcat]; simp)
    rw [hsplit] at hc
    exact hseg.2.1 (mem_of_getLast?_append hseg.1 hc)

theorem toList_attachmentUrl (key : String) : (attachmentUrl st.cfg key).toList =
    st.origin.text ++ (text st.path ++ '/' :: (st.cfg.s3Bucket.toList ++ '/' :: key.toList)) := by
  have htrim := trimEndSlashes_append st.endpoint (getLast?_endpoint st)
  simp [attachmentUrl, htrim]

/-- a path below one of literal segments is literal if what is below is -/
theorem text_append {segs : List Segment} (h : ∀ seg ∈ segs, Literal seg) (path : List Char) :
    ∃ path', text segs ++ '/' :: path = '/' :: path' ∧ (Literal path' ↔ Literal path) := by
  induction segs with
  | nil => exact ⟨path, rfl, Iff.rfl⟩
  | cons seg rest ih =>
    obtain ⟨path', heq, hiff⟩ := ih fun s hs => h s (List.mem_cons_of_mem _ hs)
    refine ⟨seg ++ '/' :: path', ?_, ?_⟩
    · rw [← heq]
      simp [text]
    · rw [literal_append, hiff]
      exact and_iff_right (h seg (List.mem_cons_self ..))

theorem digitChar_literal : ∀ d < 16, Nat.digitChar d ≠ '/' ∧ Nat.digitChar d ≠ '#' ∧ Nat.digitChar d ≠ '?' ∧
    Nat.digitChar d ≠ '%' ∧ Nat.digitChar d ≠ '.' := by
  decide

theorem literal_uuid (id : Uuid) : Literal (Servers.Uuid.toString id).toList := by
  apply literal_of_plain
  intro c h
  have hdigit : ∀ w n, c ∈ Servers.hexDigits w n → c ≠ '/' ∧ c ≠ '#' ∧ c ≠ '?' ∧ c ≠ '%' ∧ c ≠ '.' := by
    intro w n hc
    obtain ⟨d, hd, rfl⟩ := Servers.mem_hexDigits hc
    exact digitChar_literal d hd
  rw [Servers.Uuid.toString, String.toList_ofList] at h
  simp only [List.mem_append, List.mem_cons] at h
  rcases h with (((h | rfl | h) | rfl | h) | rfl | h) | rfl | h
  all_goals first | exact hdigit _ _ h | decide

/-- the url of a stored file addresses it exactly if its filename is literal -/
theorem roundTrip_iff (c attachmentId : Uuid) (filename : String) :
    RoundTrip st (attachmentUrl st.cfg (objectKey c attachmentId filename)) (objectKey c attachmentId filename) ↔
      Literal filename.toList := by
  have hkey : (objectKey c attachmentId filename).toList = (Servers.Uuid.toString c).toList ++
      '/' :: ((Servers.Uuid.toString attachmentId).toList ++ '/' :: filename.toList) := by
    simp [objectKey]
  obtain ⟨path, hpath, hiff⟩ := text_append (fun seg hseg => (st.plain seg hseg).2.2)
    (st.cfg.s3Bucket.toList ++ '/' :: (objectKey c attachmentId filename).toList)
  -- what is in front of the filename is literal
  have hliteral : Literal path ↔ Literal filename.toList := by
    rw [hiff, hkey, literal_append, literal_append, literal_append, and_iff_right st.bucket, and_iff_right (literal_uuid c),
      and_iff_right (literal_uuid attachmentId)]
  have haddress : address (attachmentUrl st.cfg (objectKey c attachmentId filename)).toList =
      st.objectPath (objectKey c attachmentId filename) ↔ Literal filename.toList := by
    rw [toList_attachmentUrl, Storage.objectPath, hpath, address_eq_iff, hliteral]
  refine ⟨fun h => haddress.1 h.path, fun h => ⟨haddress.2 h, ?_⟩⟩
  intro key' hkey'
  exact objectPath_inj st (hkey'.symm.trans (haddress.2 h))

/-! ## Uploads -/

/-- the file is stored under its key, and the url is the one of this key -/
def StoredAs (cfg : Config) (s : St) (q : Request) (a : AttachmentResponse) : Prop :=
  a.url = attachmentUrl cfg (objectKey q.channelId a.attachmentId a.filename) ∧
    ∃ o ∈ s.objects, o.key = objectKey q.channelId a.attachmentId a.filename ∧ o.size = a.sizeBytes

/-- what uploads are answered has been stored -/
structure Uploads (cfg : Config) (s : St) : Prop where
  tasks : ∀ r task a, s.requests r = some task → task.phase = .responding (.uploaded a) → StoredAs cfg s task.request a
  log : ∀ e ∈ s.log, ∀ u q a, e.event = .returned u q (.uploaded a) → StoredAs cfg s q a

theorem uploads_init (cfg : Config) : Uploads cfg init := by
  constructor <;> simp [init]

theorem StoredAs.mono {cfg : Config} {s t : St} {q : Request} {a : AttachmentResponse} (h : StoredAs cfg s q a)
    (hobjects : ∀ o ∈ s.objects, o ∈ t.objects) : StoredAs cfg t q a := by
  obtain ⟨hurl, o, ho, hkey, hsize⟩ := h
  exact ⟨hurl, o, hobjects o ho, hkey, hsize⟩

/-- the invariant after one request has moved on -/
theorem Uploads.move {cfg : Config} {s t : St} {r : ℕ} {task : Task} {phase : Phase} (h : Uploads cfg s)
    (hobjects : ∀ o ∈ s.objects, o ∈ t.objects) (hrequests : t.requests = (s.move r task phase).requests)
    (hphase : ∀ a, phase = .responding (.uploaded a) → StoredAs cfg t task.request a)
    (hlog : ∀ e ∈ t.log, e ∈ s.log ∨ ∀ u q a, e.event = .returned u q (.uploaded a) → StoredAs cfg t q a) :
    Uploads cfg t := by
  refine ⟨?_, ?_⟩
  · intro r' task' a htask' ha
    rw [hrequests] at htask'
    rcases move_cases htask' with ⟨rfl, rfl⟩ | ⟨-, htask'⟩
    · exact hphase a ha
    · exact (h.tasks r' task' a htask' ha).mono hobjects
  · intro e he u q a hevent
    rcases hlog e he with hold | hnew
    · exact (h.log e hold u q a hevent).mono hobjects
    · exact hnew u q a hevent

theorem Quiet.not_uploaded {cfg : Config} {s : St} {task : Task} {o : Op} {phase : Phase} (h : Quiet cfg s task o phase)
    (a : AttachmentResponse) : phase ≠ .responding (.uploaded a) := by
  cases h with
  | selected => split_ifs <;> simp
  | _ => simp [error]

theorem written_uploaded {ok : Bool} {answer : Answer} {text : String} {a : AttachmentResponse}
    (h : written ok answer text = .responding (.uploaded a)) : answer = .uploaded a := by
  cases ok with
  | true => exact Phase.responding.inj h
  | false => cases h

theorem Checked.not_uploaded {cfg : Config} {q : Request} {action : Servers.Action} {reply : Option Bool} {phase : Phase}
    (h : Checked cfg q action reply phase) (a : AttachmentResponse) : phase ≠ .responding (.uploaded a) := by
  cases h with
  | refused => simp [error]
  | create => simp
  | list => split_ifs <;> simp
  | delete => simp

theorem firstPhase_not_uploaded (q : Request) (a : AttachmentResponse) : firstPhase q ≠ .responding (.uploaded a) := by
  cases q with
  | upload c multipart =>
    simp only [firstPhase]
    cases readFile multipart with
    | ok file => simp
    | error e => simp
  | _ => simp [firstPhase]

/-- a new entry that is no answer -/
theorem plain_log {cfg : Config} {s t : St} {r now : ℕ} {event : Event} (hplain : ∀ u q answer, event ≠ .returned u q answer) :
    ∀ e ∈ s.log ++ [⟨r, now, event⟩],
      e ∈ s.log ∨ ∀ u q a, e.event = .returned u q (.uploaded a) → StoredAs cfg t q a := by
  intro e he
  rcases List.mem_append.1 he with hold | hnew
  · exact .inl hold
  · obtain rfl := List.mem_singleton.1 hnew
    exact .inr fun u q a hevent => absurd hevent (hplain u q _)

theorem uploads_step (cfg : Config) (s : St) (o : Op) (h : Uploads cfg s) : Uploads cfg (step cfg s o) := by
  rcases step_effect cfg s o with heq | he
  · rwa [heq]
  generalize step cfg s o = t at he
  cases he with
  | tick => exact ⟨h.tasks, h.log⟩
  | arrive hnone =>
    refine ⟨?_, h.log⟩
    intro r' task' a htask' ha
    rcases arrive_cases htask' with ⟨rfl, rfl⟩ | htask'
    · exact absurd ha (firstPhase_not_uploaded _ a)
    · exact h.tasks r' task' a htask' ha
  | quiet htask ho hquiet =>
    exact h.move (fun _ ho => ho) rfl (fun a ha => absurd ha (hquiet.not_uploaded a)) fun e he => .inl he
  | check reply htask hphase hchecks =>
    exact h.move (fun _ ho => ho) rfl (fun a ha => absurd ha ((afterCheck_checked hchecks reply).not_uploaded a))
      (plain_log nofun)
  | insert ok htask hphase hq hfresh happlied =>
    refine h.move (fun _ ho => ho) rfl (fun a ha => ?_) (plain_log nofun)
    cases written_uploaded ha
  | mark ok htask hphase hq happlied =>
    refine h.move (fun _ ho => ho) rfl (fun a ha => ?_) (plain_log nofun)
    cases written_uploaded ha
  | set htask hphase hq happlied =>
    exact h.move (fun _ ho => ho) rfl (fun a ha => by cases ha) fun e he => .inl he
  | @put r task file attachmentId outcome ok htask hphase happlied =>
    refine h.move (fun o ho => List.mem_append_left _ ho) rfl (fun a ha => ?_) (plain_log nofun)
    obtain rfl := Answer.uploaded.inj (written_uploaded ha)
    exact ⟨rfl, _, List.mem_append_right _ (List.mem_singleton_self _), rfl, rfl⟩
  | @respond r task answer htask hphase =>
    refine h.move (fun _ ho => ho) rfl (fun a ha => by cases ha) ?_
    intro e he
    rcases List.mem_append.1 he with hold | hnew
    · exact .inl hold
    · obtain rfl := List.mem_singleton.1 hnew
      refine .inr fun u q a hevent => ?_
      obtain ⟨-, rfl, rfl⟩ := Event.returned.inj hevent
      exact h.tasks r task a htask hphase

/-- **Uploads.** The url of an accepted upload addresses the object that was stored, and no other, exactly if the filename is
literal. -/
theorem upload_iff (ops : List Op) {e : Entry} {u : Uuid} {q : Request} {a : AttachmentResponse}
    (he : e ∈ (reached st.cfg ops).log) (hevent : e.event = .returned u q (.uploaded a)) :
    ∃ o ∈ (reached st.cfg ops).objects, o.key = objectKey q.channelId a.attachmentId a.filename ∧ o.size = a.sizeBytes ∧
      (RoundTrip st a.url o.key ↔ Literal a.filename.toList) := by
  obtain ⟨hurl, o, ho, hkey, hsize⟩ := (run_inv' (uploads_step st.cfg) (uploads_init st.cfg) ops).log e he u q a hevent
  refine ⟨o, ho, hkey, hsize, ?_⟩
  rw [hurl, hkey]
  exact roundTrip_iff st q.channelId a.attachmentId a.filename

def localStorage : Storage where
  cfg := ⟨true, 5, "http://localhost:9000", "attachments"⟩
  origin := ⟨"http".toList, "localhost:9000".toList, List.forall_iff_forall_mem.1 (by decide)⟩
  authority := by decide
  path := []
  plain := by simp
  slashes := 0
  endpoint := by decide
  bucket := by decide

/-- a user uploads a file of three bytes to channel 1 -/
def uploadOf (filename : String) : List Op :=
  [.arrive 0 8 (.upload 1 [some ⟨some "file", some filename, some "application/pdf", [some [1, 2, 3]]⟩]), .put 0 2 .done, .respond 0]

/-- what it is answered -/
def uploadAnswer (filename : String) : AttachmentResponse :=
  ⟨2, attachmentUrl localStorage.cfg (objectKey 1 2 filename), filename, 3⟩

theorem upload_reached : ∃ o ∈ (reached localStorage.cfg (uploadOf "report.pdf")).objects,
    RoundTrip localStorage (uploadAnswer "report.pdf").url o.key := by
  have hanswered : ⟨0, 0, .returned 8 (.upload 1 [some ⟨some "file", some "report.pdf", some "application/pdf", [some [1, 2, 3]]⟩])
      (.uploaded (uploadAnswer "report.pdf"))⟩ ∈ (reached localStorage.cfg (uploadOf "report.pdf")).log :=
    List.mem_of_getElem? (i := 1) rfl
  obtain ⟨o, ho, -, -, hiff⟩ := upload_iff localStorage (uploadOf "report.pdf") hanswered rfl
  exact ⟨o, ho, hiff.2 (by decide)⟩

/-- the url ends at the number sign of the filename -/
theorem cut_at_fragment : (∃ e ∈ (reached localStorage.cfg (uploadOf "report#1.pdf")).log, ∃ u q,
      e.event = .returned u q (.uploaded (uploadAnswer "report#1.pdf"))) ∧
    ¬ RoundTrip localStorage (uploadAnswer "report#1.pdf").url (objectKey 1 2 "report#1.pdf") := by
  refine ⟨⟨_, List.mem_of_getElem? (i := 1) rfl, _, _, rfl⟩, ?_⟩
  intro h
  exact absurd ((roundTrip_iff localStorage 1 2 "report#1.pdf").1 h) (by decide)

end Concordia.Chat.Requests
