import OpBrowser.Verification.Downloads.Steps
import OpBrowser.Verification.Storage.Downloads
import Mathlib.Data.List.Infix

/-! # Downloads are saved whole

The bytes that arrive for a request go through its reply and its downloader into a file of
their own, whatever other requests, downloads and web apps there are. -/

namespace OpBrowser.Downloads

open Response Storage
open Traffic (view View)

/-- The web app only uses its network classes and its downloaders. -/
def Honest (a : I32) (as : List Action) : Prop := ∀ act ∈ as, act.Own a

variable {q : QtVariants} {info : I32 → I32 → ReplyInfo} {metaData : I32 → I32 → Bytes}
  {dir : Directory} {s : State} {a u : I32} {d : OpDownloader} {st : Storage.State}

/-- What the storage component makes of a download. -/
structure Saved (dir : Directory) (s : State) (a u : I32) (d : OpDownloader) (st : Storage.State) :
    Prop where
  /-- The file is new, and nothing else goes into it. -/
  own : ∀ file, st.writeQueue (a, d.reqId) = some file →
    IsPlain file.fileName ∧ dir.fileExists file.fileName = false ∧
      ∀ id file', st.writeQueue id = some file' → (a, d.reqId) ≠ id → file.fileName ≠ file'.fileName
  /-- It holds the front of what arrived for the request. -/
  front : ∀ file, st.writeQueue (a, d.reqId) = some file → ∃ content,
    st.dir.files[file.fileName]? = some content ∧ content <+: (s.traffic.record a u).body
  /-- After the end it is closed and holds all of that. -/
  whole : (s.traffic.record a u).finishedSignals = 1 → (s.traffic.record a u).aborted = false →
    s.toStorage = [] → ∀ file, st.writeQueue (a, d.reqId) = some file →
      file.isOpen = false ∧ st.dir.files[file.fileName]? = some (s.traffic.record a u).body
  /-- There is a file unless all was there before the downloader and the end came after it. -/
  exists_iff : (s.traffic.record a u).finishedSignals = 1 → (s.traffic.record a u).aborted = false →
    s.toStorage = [] → ((∃ file, st.writeQueue (a, d.reqId) = some file) ↔
      d.late = true ∨ d.waiting < (s.traffic.record a u).body.length)

/-! ### Runs -/

theorem inv_run {as : List Action} (h : Honest a as) :
    Inv metaData a (run q info metaData as) := by
  have hall : ∀ (as : List Action) (s : State), Inv metaData a s → Honest a as →
      Inv metaData a (as.foldl (step q info metaData) s) := by
    intro as
    induction as with
    | nil => exact fun s hs _ => hs
    | cons act as ih =>
        intro s hs hhonest
        exact ih _ (hs.step (hhonest act List.mem_cons_self))
          fun act' hact' => hhonest act' (List.mem_cons_of_mem act hact')
  exact hall as {} inv_start h

/-! ### The contents of the file -/

theorem received_mono {bs bs' : List Bytes} (h : bs <+: bs') : received bs <+: received bs' := by
  obtain ⟨rest, rfl⟩ := h
  cases bs with
  | nil => exact List.nil_prefix
  | cons header bs =>
      change (bs.takeWhile _).flatten <+: ((bs ++ rest).takeWhile _).flatten
      rw [List.takeWhile_append]
      split
      · exact List.IsPrefix.flatten ((List.takeWhile_prefix _).trans (List.prefix_append _ _))
      · exact List.prefix_rfl

section Served

variable {v : View} {bs : List Bytes}

theorem chunks_sending {header : Bytes} {l : List Bytes} {ended : Bool} (hl : ∀ c ∈ l, c ≠ []) :
    chunks (header :: l ++ if ended then [[]] else []) = l := by
  have hall : ∀ c ∈ l, decide (c ≠ []) = true := fun c hc => decide_eq_true (hl c hc)
  change (l ++ if ended then [[]] else []).takeWhile (· ≠ []) = l
  rw [List.takeWhile_append_of_pos hall]
  cases ended <;> simp

/-- What was sent is what the reply has returned. -/
theorem Serves.received (h : Serves v d bs) : Storage.received bs = v.record.returned := by
  cases h with
  | waiting held hsent hlate hheld hunread hreturned hfinished => exact hreturned.symm
  | sending header chunks hsent hlong hchunks hflatten hunread hfinished =>
      rw [Storage.received, chunks_sending hchunks]
      exact hflatten

theorem Serves.ended (h : Serves v d bs) (hne : bs ≠ []) : Storage.ended bs = d.finished := by
  cases h with
  | waiting held hsent hlate hheld hunread hreturned hfinished => exact absurd rfl hne
  | sending header chunks hsent hlong hchunks hflatten hunread hfinished =>
      change (chunks ++ if d.finished then [[]] else []).any (· = []) = d.finished
      rw [List.any_append, List.any_eq_false.mpr (by simpa using hchunks)]
      cases d.finished <;> simp

/-- When the reply is finished and holds what is left of the body, the downloader has sent
something unless all of it was there at first. -/
theorem Serves.sent_iff (h : Serves v d bs) {body held : Bytes}
    (hheld : v.reply.map (·.reply.unread) = some held) (hbody : v.record.returned ++ held = body) :
    bs ≠ [] ↔ d.late = true ∨ d.waiting < body.length := by
  cases h with
  | waiting held' hsent hlate hlength hunread hreturned hfinished =>
      obtain rfl : held = held' := by simpa [hheld] using hunread
      rw [hreturned, List.nil_append] at hbody
      simp [hlate, ← hlength, hbody]
  | sending header chunks hsent hlong hchunks hflatten hunread hfinished =>
      refine iff_of_true (by simp) (hlong.imp id fun hlt => ?_)
      rw [← hbody, List.length_append]
      omega

theorem Serves.whole (h : Serves v d bs) (hne : bs ≠ []) {body held : Bytes}
    (hheld : v.reply.map (·.reply.unread) = some held) (hbody : v.record.returned ++ held = body) :
    v.record.returned = body := by
  cases h with
  | waiting held' hsent hlate hlength hunread hreturned hfinished => exact absurd rfl hne
  | sending header chunks hsent hlong hchunks hflatten hunread hfinished =>
      obtain rfl : held = [] := by simpa [hheld] using hunread
      rw [← hbody, List.append_nil]

theorem Serves.closed (h : Serves v d bs) (hdone : v.record.finishedSignals = 1) :
    d.finished = true := by
  cases h with
  | waiting held hsent hlate hheld hunread hreturned hfinished =>
      exact hfinished.mpr (by rw [hdone]; exact one_ne_zero)
  | sending header chunks hsent hlong hchunks hflatten hunread hfinished =>
      exact hfinished.mpr (by rw [hdone]; exact one_ne_zero)

end Served

/-! ### The end of a download -/

/-- What the reply of a request holds is a part of what arrived for it, and after the end it
is the rest of that. -/
theorem Inv.remaining (h : Inv metaData a s) (hd : s.downloaders a u = some d) :
    ∃ held, (view s.traffic a u).reply.map (·.reply.unread) = some held ∧
      (s.traffic.record a u).returned <+: (s.traffic.record a u).body ∧
      ((s.traffic.record a u).finishedSignals = 1 → (s.traffic.record a u).aborted = false →
        (s.traffic.record a u).returned ++ held = (s.traffic.record a u).body) := by
  obtain ⟨r, hr⟩ := Option.ne_none_iff_exists'.mp (h.served u d hd).made
  obtain ⟨acts, halone, rfl⟩ := h.alone hr
  have hinv := Response.inv_run (Traffic.requestOf metaData a u) acts
  have hrecord : s.traffic.record a u = _ := halone.record
  rw [hr, hrecord]
  refine ⟨_, rfl, ?_, fun hdone hnot => ?_⟩
  · exact hinv.whole.returned.trans hinv.whole.forwarded
  · exact hinv.remaining hnot hdone

/-- The messages that the storage component has taken make of the download what they should. -/
theorem Inv.saved (h : Inv metaData a s) (hd : s.downloaders a u = some d)
    (hst : Stored dir s.taken st) : Saved dir s a u d st := by
  have hserved := h.served u d hd
  obtain ⟨held, hheld, hfront, hrest⟩ := h.remaining hd
  constructor
  · intro file hfile
    have hown := hst.own _ file hfile
    exact ⟨hown.plain, hown.fresh,
        fun id file' hfile' hne => hst.apart _ id file file' hfile hfile' hne⟩
  · intro file hfile
    refine ⟨_, (hst.own _ file hfile).content, ?_⟩
    have hprefix : stream (a, d.reqId) s.taken <+:
        stream (a, d.reqId) (s.taken ++ s.toStorage) := by
      rw [stream_append_list]
      exact List.prefix_append _ _
    refine (received_mono hprefix).trans ?_
    rw [hserved.received]
    exact hfront
  · intro hdone hnot hempty file hfile
    rw [hempty, List.append_nil] at hserved
    have hown := hst.own _ file hfile
    have hne := hst.ne_nil hfile
    constructor
    · rw [hown.isOpen, hserved.ended hne, hserved.closed hdone]
      rfl
    · rw [hown.content, hserved.received, hserved.whole hne hheld (hrest hdone hnot)]
  · intro hdone hnot hempty
    rw [hempty, List.append_nil] at hserved
    rw [← hserved.sent_iff hheld (hrest hdone hnot), ne_eq, ← hst.started, ← ne_eq,
      Option.ne_none_iff_exists']

/-- In every run, the download of an honest web app gets a file of its own in which, once the
reply is finished and the storage component has taken all messages, is what arrived for the
request. Without a file nothing has come since the downloader was made. -/
theorem saved_run {as : List Action} (h : Honest a as) (dir : Directory)
    (hd : (run q info metaData as).downloaders a u = some d) :
    ∃ st N, (∀ fuel > N, Storage.run q fuel dir (run q info metaData as).taken = some st) ∧
      Saved dir (run q info metaData as) a u d st := by
  have hinv : Inv metaData a (run q info metaData as) := inv_run h
  obtain ⟨st, N, hrun, hst⟩ := Storage.run_ends q dir (Stored dir) (stored_start dir)
    (fun _ _ _ _ hs hm => hs.dispatched hm) (run q info metaData as).taken
  exact ⟨st, N, hrun, hinv.saved hd hst⟩

/-! ### One download -/

/-- Two bytes come one by one, while another web app writes to the storage component. -/
def saving : List Action :=
  [.traffic (.createRequest 1024), .traffic .readNetwork, .traffic (.signal 0 .metaDataChanged),
    .traffic (.readWebApp 1024), .handleUnsupportedContent 1024 0,
    .traffic (.signal 0 (.arrive [1])), .traffic (.signal 0 .readyRead),
      .traffic (.readWebApp 1024),
    .write 1025 { msgType := msgWriteFile, payload := .ofBytes [3] },
    .traffic (.signal 0 (.arrive [2])), .traffic (.signal 0 .readyRead),
      .traffic (.readWebApp 1024),
    .traffic (.signal 0 .finished), .traffic (.readWebApp 1024),
    .readStorage, .readStorage, .readStorage, .readStorage, .readStorage]

def savedText : OpDownloader := { reqId := 0, sent := true, finished := true, bytes := 2 }

theorem saved_run_text : ∃ st N,
    (∀ fuel > N, Storage.run Streams.variants fuel bare
      (run Streams.variants (fun _ _ => { path := QString.ofString "/a.txt" }) (fun _ _ => [])
        saving).taken = some st) ∧
      Saved bare (run Streams.variants (fun _ _ => { path := QString.ofString "/a.txt" })
        (fun _ _ => []) saving) 1024 0 savedText st :=
  saved_run (by simp [Honest, Action.Own, saving]) bare (by decide)

end OpBrowser.Downloads
