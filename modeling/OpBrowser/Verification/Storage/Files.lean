import OpBrowser.Verification.Storage.Names
import Mathlib.Data.List.Induction

/-! # Downloads and the files they go to

A stream is what one web app sends under one file id. Every step of a run adds a
message to at most one stream, and changes at most the file of that stream. -/

namespace OpBrowser.Storage

/-! ### Streams -/

/-- The messages of a stream, in order. -/
def stream (id : I32 × I32) (msgs : List Message) : List Bytes :=
  (msgs.filter fun m => m.msgType = msgWriteFile ∧ (m.srcId, m.msgValue) = id).map
    fun m => m.payload.data

/-- The data messages of a stream. The first message proposes the name, whatever it
holds, and the first empty one after it ends the stream. -/
def chunks (msgs : List Bytes) : List Bytes := msgs.tail.takeWhile (· ≠ [])

/-- What a stream has sent to its file. -/
def received (msgs : List Bytes) : Bytes := (chunks msgs).flatten

/-- Has the empty message come? -/
def ended (msgs : List Bytes) : Bool := msgs.tail.any (· = [])

variable {id id' : I32 × I32} {msgs : List Message} {m : Message} {bs : List Bytes} {b : Bytes}

theorem stream_append (id : I32 × I32) (msgs : List Message) (m : Message) :
    stream id (msgs ++ [m]) = stream id msgs ++ stream id [m] := by
  rw [stream, List.filter_append, List.map_append]
  rfl

theorem stream_of_ne_type (h : m.msgType ≠ msgWriteFile) : stream id [m] = [] := by
  simp [stream, h]

theorem stream_of_ne_id (h : (m.srcId, m.msgValue) ≠ id) : stream id [m] = [] := by
  rw [stream, List.filter_cons_of_neg, List.filter_nil, List.map_nil]
  simp only [decide_eq_true_eq, not_and]
  exact fun _ => h

theorem stream_self (h : m.msgType = msgWriteFile) :
    stream (m.srcId, m.msgValue) [m] = [m.payload.data] := by
  simp [stream, h]

theorem chunks_append_of_ended (h : ended bs = true) : chunks (bs ++ [b]) = chunks bs := by
  cases bs with
  | nil => cases h
  | cons header bs =>
      rw [ended, List.tail_cons] at h
      rw [chunks, chunks]
      induction bs with
      | nil => cases h
      | cons b' bs ih =>
          by_cases hb : b' = []
          · simp [hb]
          · rw [List.any_cons, decide_eq_false hb, Bool.false_or] at h
            simpa [hb] using ih h

theorem chunks_append (hne : bs ≠ []) (h : ended bs = false) :
    chunks (bs ++ [b]) = chunks bs ++ [b].filter (· ≠ []) := by
  cases bs with
  | nil => exact absurd rfl hne
  | cons header bs =>
      have hall : ∀ b' ∈ bs, decide (b' ≠ []) = true := by
        intro b' hb'
        rw [ended, List.any_eq_false] at h
        simpa using h b' hb'
      have hself : bs.takeWhile (· ≠ []) = bs := List.takeWhile_eq_self_iff.2 hall
      change (bs ++ [b]).takeWhile _ = bs.takeWhile _ ++ _
      rw [List.takeWhile_append_of_pos hall, hself]
      by_cases hb : b = [] <;> simp [hb]

theorem received_append_of_ended (h : ended bs = true) : received (bs ++ [b]) = received bs := by
  rw [received, chunks_append_of_ended h, received]

theorem received_append (hne : bs ≠ []) (h : ended bs = false) :
    received (bs ++ [b]) = received bs ++ b := by
  rw [received, chunks_append hne h, received, List.flatten_append]
  by_cases hb : b = [] <;> simp [hb]

theorem ended_append (hne : bs ≠ []) : ended (bs ++ [b]) = (ended bs || decide (b = [])) := by
  cases bs with
  | nil => exact absurd rfl hne
  | cons header bs => simp [ended]

@[simp] theorem received_singleton : received [b] = [] := rfl

@[simp] theorem ended_singleton : ended [b] = false := rfl

/-! ### The directory -/

namespace Directory

variable {d : Directory} {name other : QString} {content data : Bytes}

theorem files_truncate :
    (d.truncate name).files[other]? = if name = other then some [] else d.files[other]? :=
  OrdMap.getElem?_insert ..

theorem files_write_of_ne (h : other ≠ name) (pos : ℕ) :
    (d.write name pos data).files[other]? = d.files[other]? := by
  rw [write, OrdMap.getElem?_insert, if_neg (Ne.symm h)]

/-- Writing at the end of a file appends to it. -/
theorem files_write_end (h : d.files[name]? = some content) :
    (d.write name content.length data).files[name]? = some (content ++ data) := by
  rw [write, OrdMap.getElem?_insert, if_pos rfl, h]
  simp

theorem fileExists_of_getElem? (h : d.files[name]? = some content) : d.fileExists name = true := by
  rw [fileExists, Bool.or_eq_true]
  refine Or.inl ?_
  rw [Std.ExtTreeMap.contains_eq_isSome_getElem?, h]
  rfl

end Directory

/-! ### One message -/

variable {q : QtVariants} {d : Directory} {s s' : State} {data : Bytes} {file : QFile}

/-- What `writeFile` does with a message of a stream. -/
inductive Writes (q : QtVariants) (s : State) (id : I32 × I32) (data : Bytes) : State → Prop
  | start (name : QString) (hnone : s.writeQueue id = none) (hplain : IsPlain name)
      (hfree : s.dir.fileExists name = false) :
      Writes q s id data <| tellUi id.1 id.2
        (q.write (q.ofString name) ++ q.write (q.ofLongLong (header q data).2))
        { s with
          dir := s.dir.truncate name
          writeQueue :=
            Function.update s.writeQueue id (some { fileName := name, isOpen := true }) }
  | write (file : QFile) (hfile : s.writeQueue id = some file) (hopen : file.isOpen = true)
      (hdata : data ≠ []) :
      Writes q s id data <| tellUi id.1 id.2 (q.write (q.ofInt data.length))
        { s with
          dir := s.dir.write file.fileName file.pos data
          writeQueue :=
            Function.update s.writeQueue id (some { file with pos := file.pos + data.length }) }
  | ignore (file : QFile) (hfile : s.writeQueue id = some file) (hclosed : file.isOpen = false)
      (hdata : data ≠ []) :
      Writes q s id data <| tellUi id.1 id.2 (q.write (q.ofInt 0)) s
  | finish (file : QFile) (hfile : s.writeQueue id = some file) (hdata : data = []) :
      Writes q s id data <| tellUi id.1 id.2 (q.write (q.ofInt 0))
        { s with
          writeQueue := Function.update s.writeQueue id (some { file with isOpen := false }) }

/-- With enough rounds for the search, `writeFile` does one of these. -/
theorem writeFile_ends (q : QtVariants) (s : State) (id : I32 × I32) (data : Bytes) :
    ∃ s' N, (∀ fuel > N, writeFile q fuel id.1 id.2 data s = some s') ∧ Writes q s id data s' := by
  cases hfile : s.writeQueue id with
  | none =>
      obtain ⟨name, N, hplain, hfree, hsearch⟩ := freeName_ends s.dir (header q data).1
      refine ⟨_, N, fun fuel hfuel => ?_, Writes.start name hfile hplain hfree⟩
      simp [writeFile, hfile, hsearch fuel hfuel]
  | some file =>
      by_cases hdata : data = []
      · refine ⟨_, 0, fun fuel _ => ?_, Writes.finish file hfile hdata⟩
        simp [writeFile, hfile, hdata]
      · have hpos : 0 < data.length := List.length_pos_of_ne_nil hdata
        cases hopen : file.isOpen with
        | true =>
            refine ⟨_, 0, fun fuel _ => ?_, Writes.write file hfile hopen hdata⟩
            simp [writeFile, hfile, hpos, hopen]
        | false =>
            refine ⟨_, 0, fun fuel _ => ?_, Writes.ignore file hfile hopen hdata⟩
            simp [writeFile, hfile, hpos, hopen]

/-! ### The invariant -/

/-- The file that a stream with these messages has to itself. -/
structure Own (d dir : Directory) (bs : List Bytes) (file : QFile) : Prop where
  plain : IsPlain file.fileName
  fresh : d.fileExists file.fileName = false
  content : dir.files[file.fileName]? = some (received bs)
  pos : file.pos = (received bs).length
  isOpen : file.isOpen = !ended bs

/-- The state of the component after these messages, if it started in the directory `d`. -/
structure Stored (d : Directory) (msgs : List Message) (s : State) : Prop where
  folders : s.dir.folders = d.folders
  kept : ∀ (name : QString) (content : Bytes), d.files[name]? = some content →
    s.dir.files[name]? = some content
  started : ∀ id, s.writeQueue id = none ↔ stream id msgs = []
  own : ∀ id file, s.writeQueue id = some file → Own d s.dir (stream id msgs) file
  apart : ∀ id id' file file', s.writeQueue id = some file → s.writeQueue id' = some file' →
    id ≠ id' → file.fileName ≠ file'.fileName

theorem Own.of_eq {dir dir' : Directory} (h : Own d dir bs file)
    (hfile : dir'.files[file.fileName]? = dir.files[file.fileName]?) : Own d dir' bs file where
  plain := h.plain
  fresh := h.fresh
  content := by rw [hfile, h.content]
  pos := h.pos
  isOpen := h.isOpen

/-- One message changes at most the file of its own stream. -/
theorem Stored.update (h : Stored d msgs s) (hm : m.msgType = msgWriteFile)
    (hqueue : s'.writeQueue =
      Function.update s.writeQueue (m.srcId, m.msgValue) (some file))
    (hfolders : s'.dir.folders = s.dir.folders)
    (hothers : ∀ name, name ≠ file.fileName → s'.dir.files[name]? = s.dir.files[name]?)
    (hown : Own d s'.dir (stream (m.srcId, m.msgValue) (msgs ++ [m])) file)
    (hname : ∀ id file', s.writeQueue id = some file' → id ≠ (m.srcId, m.msgValue) →
      file'.fileName ≠ file.fileName) :
    Stored d (msgs ++ [m]) s' where
  folders := hfolders.trans h.folders
  kept := by
    intro name content hold
    have hne : name ≠ file.fileName := by
      rintro rfl
      have hfresh := hown.fresh
      rw [Directory.fileExists_of_getElem? hold] at hfresh
      cases hfresh
    rw [hothers name hne]
    exact h.kept name content hold
  started := by
    intro id
    by_cases hid : id = (m.srcId, m.msgValue)
    · subst hid
      simp [hqueue, stream_append, stream_self hm]
    · rw [hqueue, Function.update_of_ne hid, stream_append, stream_of_ne_id (Ne.symm hid),
        List.append_nil]
      exact h.started id
  own := by
    intro id file' hfile'
    by_cases hid : id = (m.srcId, m.msgValue)
    · subst hid
      rw [hqueue, Function.update_self] at hfile'
      cases hfile'
      exact hown
    · rw [hqueue, Function.update_of_ne hid] at hfile'
      rw [stream_append, stream_of_ne_id (Ne.symm hid), List.append_nil]
      exact (h.own id file' hfile').of_eq (hothers _ (hname id file' hfile' hid))
  apart := by
    intro id id' file₁ file₂ h₁ h₂ hne
    rw [hqueue] at h₁ h₂
    by_cases hid : id = (m.srcId, m.msgValue)
    · by_cases hid' : id' = (m.srcId, m.msgValue)
      · exact absurd (hid.trans hid'.symm) hne
      · rw [Function.update_of_ne hid'] at h₂
        rw [hid, Function.update_self] at h₁
        cases h₁
        exact Ne.symm (hname id' file₂ h₂ hid')
    · rw [Function.update_of_ne hid] at h₁
      by_cases hid' : id' = (m.srcId, m.msgValue)
      · rw [hid', Function.update_self] at h₂
        cases h₂
        exact hname id file₁ h₁ hid
      · rw [Function.update_of_ne hid'] at h₂
        exact h.apart id id' file₁ file₂ h₁ h₂ hne

theorem Stored.fileExists (h : Stored d msgs s) (hfile : s.writeQueue id = some file) :
    s.dir.fileExists file.fileName = true :=
  Directory.fileExists_of_getElem? (h.own id file hfile).content

theorem Stored.ne_nil (h : Stored d msgs s) (hfile : s.writeQueue id = some file) :
    stream id msgs ≠ [] := by
  intro hnil
  rw [(h.started id).2 hnil] at hfile
  cases hfile

/-- What is free now was free at the start. -/
theorem Stored.fresh (h : Stored d msgs s) {name : QString}
    (hfree : s.dir.fileExists name = false) : d.fileExists name = false := by
  rw [Directory.fileExists, Bool.or_eq_false_iff] at hfree ⊢
  refine ⟨?_, h.folders ▸ hfree.2⟩
  have hnone := hfree.1
  rw [Std.ExtTreeMap.contains_eq_isSome_getElem?, Option.isSome_eq_false_iff,
    Option.isNone_iff_eq_none] at hnone ⊢
  cases hold : d.files[name]? with
  | none => rfl
  | some content => rw [h.kept name content hold] at hnone; cases hnone

/-- A message to a stream that has a file keeps the invariant if it leaves the file as
the stream has it then. -/
theorem Stored.again {old : QFile} (h : Stored d msgs s) (hm : m.msgType = msgWriteFile)
    (hfile : s.writeQueue (m.srcId, m.msgValue) = some old)
    (hqueue : s'.writeQueue = Function.update s.writeQueue (m.srcId, m.msgValue) (some file))
    (hfolders : s'.dir.folders = s.dir.folders)
    (hothers : ∀ name, name ≠ file.fileName → s'.dir.files[name]? = s.dir.files[name]?)
    (hname : file.fileName = old.fileName)
    (hcontent : s'.dir.files[old.fileName]? =
      some (received (stream (m.srcId, m.msgValue) (msgs ++ [m]))))
    (hpos : file.pos = (received (stream (m.srcId, m.msgValue) (msgs ++ [m]))).length)
    (hopen : file.isOpen = !ended (stream (m.srcId, m.msgValue) (msgs ++ [m]))) :
    Stored d (msgs ++ [m]) s' := by
  have hold := h.own _ old hfile
  refine h.update hm hqueue hfolders hothers ?_ fun id file' hfile' hid => ?_
  · exact {
      plain := hname ▸ hold.plain
      fresh := hname ▸ hold.fresh
      content := hname ▸ hcontent
      pos := hpos
      isOpen := hopen }
  · rw [hname]
    exact h.apart id _ file' old hfile' hfile hid

/-- Every message to a stream keeps the invariant. -/
theorem Stored.writes (h : Stored d msgs s) (hm : m.msgType = msgWriteFile)
    (hw : Writes q s (m.srcId, m.msgValue) m.payload.data s') : Stored d (msgs ++ [m]) s' := by
  have happ : stream (m.srcId, m.msgValue) (msgs ++ [m]) =
      stream (m.srcId, m.msgValue) msgs ++ [m.payload.data] := by
    rw [stream_append, stream_self hm]
  cases hw with
  | start name hnone hplain hfree =>
      have hnil := (h.started _).1 hnone
      refine h.update hm rfl rfl (fun other hne => ?_) ?_ fun id file' hfile' _ heq => ?_
      · exact Directory.files_truncate.trans (if_neg (Ne.symm hne))
      · rw [happ, hnil]
        exact {
          plain := hplain
          fresh := h.fresh hfree
          content := Directory.files_truncate.trans (if_pos rfl)
          pos := rfl
          isOpen := rfl }
      · have htaken := h.fileExists hfile'
        rw [heq, hfree] at htaken
        cases htaken
  | write file hfile hopen hdata =>
      have hown := h.own _ file hfile
      have hgoing : ended (stream (m.srcId, m.msgValue) msgs) = false := by
        simpa [hopen] using hown.isOpen
      refine h.again hm hfile rfl rfl (fun other hother => ?_) rfl ?_ ?_ ?_
      · exact Directory.files_write_of_ne hother file.pos
      · rw [happ, received_append (h.ne_nil hfile) hgoing, hown.pos]
        exact Directory.files_write_end hown.content
      · rw [happ, received_append (h.ne_nil hfile) hgoing, List.length_append, hown.pos]
      · rw [happ, ended_append (h.ne_nil hfile), hgoing, decide_eq_false hdata]
        exact hopen
  | ignore file hfile hclosed hdata =>
      have hown := h.own _ file hfile
      have hended : ended (stream (m.srcId, m.msgValue) msgs) = true := by
        simpa [hclosed] using hown.isOpen
      refine h.again hm hfile ?_ rfl (fun _ _ => rfl) rfl ?_ ?_ ?_
      · rw [← hfile, Function.update_eq_self]
        rfl
      · rw [happ, received_append_of_ended hended]
        exact hown.content
      · rw [happ, received_append_of_ended hended, hown.pos]
      · rw [happ, ended_append (h.ne_nil hfile), hended, hclosed]
        rfl
  | finish file hfile hdata =>
      have hown := h.own _ file hfile
      have hreceived : received (stream (m.srcId, m.msgValue) (msgs ++ [m])) =
          received (stream (m.srcId, m.msgValue) msgs) := by
        rw [happ]
        cases hended : ended (stream (m.srcId, m.msgValue) msgs) with
        | true => exact received_append_of_ended hended
        | false => rw [received_append (h.ne_nil hfile) hended, hdata, List.append_nil]
      refine h.again hm hfile rfl rfl (fun _ _ => rfl) rfl ?_ ?_ ?_
      · rw [hreceived]
        exact hown.content
      · rw [hreceived]
        exact hown.pos
      · rw [happ, ended_append (h.ne_nil hfile), hdata, decide_eq_true rfl, Bool.or_true]
        rfl

/-- Messages of other types change no file. -/
theorem Stored.other (h : Stored d msgs s) (hm : m.msgType ≠ msgWriteFile)
    (hdir : s'.dir = s.dir) (hqueue : s'.writeQueue = s.writeQueue) :
    Stored d (msgs ++ [m]) s' := by
  have hstream : ∀ id, stream id (msgs ++ [m]) = stream id msgs := by
    intro id
    rw [stream_append, stream_of_ne_type hm, List.append_nil]
  constructor
  · rw [hdir]
    exact h.folders
  · rw [hdir]
    exact h.kept
  · intro id
    rw [hqueue, hstream]
    exact h.started id
  · intro id file hfile
    rw [hqueue] at hfile
    rw [hdir, hstream]
    exact h.own id file hfile
  · rw [hqueue]
    exact h.apart

/-! ### Runs -/

/-- What one message does, whatever state the component is in. -/
inductive Dispatched (q : QtVariants) (s : State) (m : Message) : State → Prop
  | write {s' : State} (hm : m.msgType = msgWriteFile)
      (hw : Writes q s (m.srcId, m.msgValue) m.payload.data s') : Dispatched q s m s'
  | other (replies : List Message) (hm : m.msgType ≠ msgWriteFile)
      (hreplies : ∀ r ∈ replies, r.msgType = msgReadFileReturn) :
      Dispatched q s m { s with sent := s.sent ++ replies }

theorem dispatchMsg_ends (q : QtVariants) (s : State) (m : Message) :
    ∃ s' N, (∀ fuel > N, dispatchMsg q fuel s m = some s') ∧ Dispatched q s m s' := by
  by_cases hm : m.msgType = msgWriteFile
  · obtain ⟨s', N, hstep, hw⟩ := writeFile_ends q s (m.srcId, m.msgValue) m.payload.data
    refine ⟨s', N, fun fuel hfuel => ?_, Dispatched.write hm hw⟩
    rw [dispatchMsg, if_pos hm]
    exact hstep fuel hfuel
  · by_cases hread : m.msgType = msgReadFile
    · let reply : Message :=
        { srcId := storageId, dstId := m.srcId, msgType := msgReadFileReturn
          msgValue := m.msgValue }
      have hstep : ∀ fuel, dispatchMsg q fuel s m = some { s with sent := s.sent ++ [reply] } := by
        intro fuel
        rw [dispatchMsg, if_neg hm, if_pos hread]
      exact ⟨_, 0, fun fuel _ => hstep fuel, Dispatched.other [reply] hm (by simp [reply])⟩
    · have hstep : ∀ fuel, dispatchMsg q fuel s m = some { s with sent := s.sent ++ [] } := by
        intro fuel
        rw [dispatchMsg, if_neg hm, if_neg hread, List.append_nil]
      exact ⟨_, 0, fun fuel _ => hstep fuel, Dispatched.other [] hm (by simp)⟩

theorem Stored.dispatched (h : Stored d msgs s) (hstep : Dispatched q s m s') :
    Stored d (msgs ++ [m]) s' := by
  cases hstep with
  | write hm hw => exact h.writes hm hw
  | other replies hm hreplies => exact h.other hm rfl rfl

theorem stored_start (d : Directory) : Stored d [] { dir := d } where
  folders := rfl
  kept := fun _ _ h => h
  started := fun id => by simp [stream]
  own := fun id file h => by cases h
  apart := fun id id' file file' h => by cases h

theorem run_append (q : QtVariants) (fuel : ℕ) (d : Directory) (msgs : List Message)
    (m : Message) : run q fuel d (msgs ++ [m]) =
      (run q fuel d msgs).bind fun s => dispatchMsg q fuel s m := by
  rw [run, List.foldlM_append]
  simp [run]

/-! More fuel changes nothing about a run that ends. -/

theorem writeFile_add {fuel : ℕ} {webappId fileId : I32}
    (h : writeFile q fuel webappId fileId b s = some s') (k : ℕ) :
    writeFile q (fuel + k) webappId fileId b s = some s' := by
  rw [writeFile] at h ⊢
  cases hfile : s.writeQueue (webappId, fileId) with
  | none =>
      simp only [hfile] at h ⊢
      obtain ⟨name, hname, hs'⟩ := Option.bind_eq_some_iff.1 h
      rw [freeName_add hname k, Option.bind_eq_bind, Option.bind_some]
      exact hs'
  | some file =>
      simp only [hfile] at h ⊢
      exact h

theorem dispatchMsg_add {fuel : ℕ} (h : dispatchMsg q fuel s m = some s') (k : ℕ) :
    dispatchMsg q (fuel + k) s m = some s' := by
  rw [dispatchMsg] at h ⊢
  split at h
  · rename_i hwrite
    rw [if_pos hwrite]
    exact writeFile_add h k
  · rename_i hother
    rw [if_neg hother]
    exact h

theorem run_add {fuel : ℕ} (h : run q fuel d msgs = some s) (k : ℕ) :
    run q (fuel + k) d msgs = some s := by
  induction msgs using List.reverseRecOn generalizing s with
  | nil => exact h
  | append_singleton msgs m ih =>
      rw [run_append] at h ⊢
      obtain ⟨t, hrun, hlast⟩ := Option.bind_eq_some_iff.1 h
      rw [ih hrun, Option.bind_some]
      exact dispatchMsg_add hlast k

/-- A property that the start has and every message keeps holds after every run, and
every run ends. -/
theorem run_ends (q : QtVariants) (d : Directory) (P : List Message → State → Prop)
    (hstart : P [] { dir := d })
    (hstep : ∀ msgs m s s', P msgs s → Dispatched q s m s' → P (msgs ++ [m]) s')
    (msgs : List Message) :
    ∃ s N, (∀ fuel > N, run q fuel d msgs = some s) ∧ P msgs s := by
  induction msgs using List.reverseRecOn with
  | nil => exact ⟨_, 0, fun fuel _ => rfl, hstart⟩
  | append_singleton msgs m ih =>
      obtain ⟨s, N, hrun, hs⟩ := ih
      obtain ⟨s', N', hend, hm⟩ := dispatchMsg_ends q s m
      refine ⟨s', max N N', fun fuel hfuel => ?_, hstep msgs m s s' hs hm⟩
      rw [run_append, hrun fuel (by omega), Option.bind_some, hend fuel (by omega)]

/-- **Downloads never clobber files and never mix.** Every run ends. The files of the start
stay as they were, every stream has a file of its own that is new and in the directory, and
the file holds the data messages of the stream. -/
theorem downloads_apart (q : QtVariants) (d : Directory) (msgs : List Message) :
    ∃ s N, (∀ fuel > N, run q fuel d msgs = some s) ∧
      (∀ (name : QString) (content : Bytes),
        d.files[name]? = some content → s.dir.files[name]? = some content) ∧
      (∀ id, stream id msgs ≠ [] → ∃ file, s.writeQueue id = some file) ∧
      (∀ id file, s.writeQueue id = some file →
        IsPlain file.fileName ∧ d.fileExists file.fileName = false ∧
          s.dir.files[file.fileName]? = some (received (stream id msgs))) ∧
      ∀ id id' file file', s.writeQueue id = some file → s.writeQueue id' = some file' →
        id ≠ id' → file.fileName ≠ file'.fileName := by
  obtain ⟨s, N, hrun, h⟩ := run_ends q d (Stored d) (stored_start d)
    (fun _ _ _ _ hs hm => hs.dispatched hm) msgs
  refine ⟨s, N, hrun, h.kept, fun id hid => ?_, fun id file hfile => ?_, h.apart⟩
  · rw [ne_eq, ← h.started id] at hid
    exact Option.ne_none_iff_exists'.1 hid
  · have hown := h.own id file hfile
    exact ⟨hown.plain, hown.fresh, hown.content⟩

end OpBrowser.Storage
