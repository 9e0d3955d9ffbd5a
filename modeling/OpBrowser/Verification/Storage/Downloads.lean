import OpBrowser.Model.DownloadManager
import OpBrowser.Verification.Storage.Files
import OpBrowser.Verification.Storage.Streams
import Mathlib.Data.List.Forall2
import Mathlib.Data.List.Perm.Subperm

/-! # The list of downloads and the downloads

The storage component tells the user interface about a stream under a job id, and the user
interface takes the first message about a job id for a new download. -/

namespace OpBrowser.Storage

open DownloadManager

variable {q : QtVariants} {d : Directory} {s s' : State} {id id' : I32 × I32}
  {msgs : List Message} {m : Message} {bs : List Bytes} {b : Bytes} {items : List DownloadItem}
  {jid : I32} {data : Bytes}

/-! ### What the list should show -/

/-- The size that the first message of a stream announces. -/
def announced (q : QtVariants) (bs : List Bytes) : ℤ := (header q (bs.headD [])).2

/-- The item shows the stream as it is. -/
structure Shows (q : QtVariants) (msgs : List Message) (s : State) (id : I32 × I32)
    (item : DownloadItem) : Prop where
  fileName : (s.writeQueue id).map QFile.fileName = some item.fileName
  size : item.maximum = announced q (stream id msgs)
  bytesReceived : item.bytesReceived = (received (stream id msgs)).length
  finished : item.finishedDownloading = ended (stream id msgs)

/-- The list has one item for every stream that was started. -/
def Mirrors (q : QtVariants) (msgs : List Message) (s : State) : Prop :=
  ∃ ids : List (I32 × I32), ids.Nodup ∧ (∀ id, id ∈ ids ↔ stream id msgs ≠ []) ∧
    List.Forall₂ (Shows q msgs s) ids (display q s.sent)

/-- No two streams share a job id. -/
def JobsApart (msgs : List Message) : Prop :=
  ∀ id id', stream id msgs ≠ [] → stream id' msgs ≠ [] →
    jobId id.1 id.2 = jobId id'.1 id'.2 → id = id'

/-- The progress bar can show the size, and still does: data overwrites a size of -1. -/
structure SizeShown (q : QtVariants) (bs : List Bytes) : Prop where
  low : -2 ^ 31 ≤ announced q bs
  high : announced q bs < 2 ^ 31
  known : announced q bs = -1 → chunks bs = []

/-! ### The list -/

@[simp] theorem jobId_downloadProgress (n : ℤ) (item : DownloadItem) :
    (item.downloadProgress n).jobId = item.jobId := rfl

@[simp] theorem jobId_finished (item : DownloadItem) : item.finished.jobId = item.jobId := rfl

/-- With one item for each job id, the first one is the only one. -/
theorem modifyItem_eq_map (f : DownloadItem → DownloadItem)
    (h : (items.map DownloadItem.jobId).Nodup) :
    modifyItem jid f items = items.map fun item => if item.jobId = jid then f item else item := by
  induction items with
  | nil => rfl
  | cons item items ih =>
      rw [List.map_cons, List.nodup_cons] at h
      rw [modifyItem, List.map_cons]
      split
      · rename_i hjob
        have hrest : items.map (fun item => if item.jobId = jid then f item else item) = items := by
          nth_rewrite 2 [← List.map_id items]
          refine List.map_congr_left fun item' hitem' => if_neg ?_
          rintro hjob'
          refine h.1 ?_
          rw [hjob, ← hjob']
          exact List.mem_map_of_mem hitem'
        rw [hrest]
      · rw [ih h.2]

theorem map_jobId_modifyItem {f : DownloadItem → DownloadItem}
    (hf : ∀ item, (f item).jobId = item.jobId) :
    (modifyItem jid f items).map DownloadItem.jobId = items.map DownloadItem.jobId := by
  induction items with
  | nil => rfl
  | cons item items ih =>
      rw [modifyItem]
      split
      · rw [List.map_cons, List.map_cons, hf]
      · rw [List.map_cons, List.map_cons, ih]

theorem handleDownloadInfo_new (h : jid ∉ items.map DownloadItem.jobId) :
    handleDownloadInfo q jid data items =
      items ++ [.new jid (q.toString (q.read data).1)
        (q.toLongLong (q.read (q.read data).2).1)] := by
  refine if_neg ?_
  rw [List.any_eq_true]
  rintro ⟨item, hitem, hjob⟩
  exact h (List.mem_map.2 ⟨item, hitem, of_decide_eq_true hjob⟩)

/-- What a further message about a download does to its item. -/
def updated (q : QtVariants) (data : Bytes) (item : DownloadItem) : DownloadItem :=
  let num := q.toInt (q.read data).1
  if num > 0 then item.downloadProgress num else item.finished

@[simp] theorem jobId_updated (item : DownloadItem) : (updated q data item).jobId = item.jobId := by
  rw [updated]
  split <;> simp

theorem handleDownloadInfo_old (h : jid ∈ items.map DownloadItem.jobId) :
    handleDownloadInfo q jid data items = modifyItem jid (updated q data) items := by
  refine if_pos ?_
  obtain ⟨item, hitem, hjob⟩ := List.mem_map.1 h
  exact List.any_eq_true.2 ⟨item, hitem, decide_eq_true hjob⟩

/-- Whatever the data, a job id is in the list from its first message on, and once. -/
theorem jobIds_handleDownloadInfo : (handleDownloadInfo q jid data items).map DownloadItem.jobId =
    if jid ∈ items.map DownloadItem.jobId then items.map DownloadItem.jobId
    else items.map DownloadItem.jobId ++ [jid] := by
  split
  · rename_i h
    rw [handleDownloadInfo_old h, map_jobId_modifyItem jobId_updated]
  · rename_i h
    rw [handleDownloadInfo_new h, List.map_append]
    rfl

theorem display_tellUi (webappId fileId : I32) (data : Bytes) (s : State) :
    display q (tellUi webappId fileId data s).sent =
      handleDownloadInfo q (jobId webappId fileId) data (display q s.sent) := by
  rw [display, tellUi, List.filter_append, List.foldl_append]
  rfl

theorem display_replies {replies : List Message}
    (h : ∀ r ∈ replies, r.msgType = msgReadFileReturn) :
    display q (s.sent ++ replies) = display q s.sent := by
  have hnone : replies.filter (·.msgType = msgDownloadInfo) = [] := by
    rw [List.filter_eq_nil_iff]
    intro r hr
    rw [h r hr]
    decide
  rw [display, List.filter_append, hnone, List.append_nil]
  rfl

/-! ### Job ids -/

/-- The list has the job ids of the streams that were started, each once. -/
structure Listed (msgs : List Message) (items : List DownloadItem) : Prop where
  nodup : (items.map DownloadItem.jobId).Nodup
  mem : ∀ jid, jid ∈ items.map DownloadItem.jobId ↔
    ∃ id, stream id msgs ≠ [] ∧ jobId id.1 id.2 = jid

theorem stream_ne_nil_append : stream id (msgs ++ [m]) ≠ [] ↔
    stream id msgs ≠ [] ∨ m.msgType = msgWriteFile ∧ (m.srcId, m.msgValue) = id := by
  rw [stream_append, ne_eq, List.append_eq_nil_iff, not_and_or]
  refine or_congr Iff.rfl ?_
  by_cases hm : m.msgType = msgWriteFile
  · by_cases hid : (m.srcId, m.msgValue) = id
    · subst hid
      simp [stream_self hm, hm]
    · simp [stream_of_ne_id hid, hid]
  · simp [stream_of_ne_type hm, hm]

theorem started_append (m : Message) (h : stream id msgs ≠ []) : stream id (msgs ++ [m]) ≠ [] :=
  stream_ne_nil_append.2 (Or.inl h)

theorem Listed.write (h : Listed msgs items) (hm : m.msgType = msgWriteFile) :
    Listed (msgs ++ [m]) (handleDownloadInfo q (jobId m.srcId m.msgValue) data items) := by
  have hstarted : ∀ jid, (∃ id, stream id (msgs ++ [m]) ≠ [] ∧ jobId id.1 id.2 = jid) ↔
      jid ∈ items.map DownloadItem.jobId ∨ jid = jobId m.srcId m.msgValue := by
    intro jid
    rw [h.mem]
    constructor
    · rintro ⟨id, hid, hjob⟩
      rw [stream_ne_nil_append] at hid
      cases hid with
      | inl hid => exact Or.inl ⟨id, hid, hjob⟩
      | inr hid => exact Or.inr (by rw [← hjob, ← hid.2])
    · intro hjid
      cases hjid with
      | inl hjid =>
          obtain ⟨id, hid, hjob⟩ := hjid
          exact ⟨id, stream_ne_nil_append.2 (Or.inl hid), hjob⟩
      | inr hjid =>
          exact ⟨(m.srcId, m.msgValue), stream_ne_nil_append.2 (Or.inr ⟨hm, rfl⟩), hjid.symm⟩
  by_cases hold : jobId m.srcId m.msgValue ∈ items.map DownloadItem.jobId
  · constructor
    · rw [jobIds_handleDownloadInfo, if_pos hold]
      exact h.nodup
    · intro jid
      rw [jobIds_handleDownloadInfo, if_pos hold, hstarted]
      exact ⟨Or.inl, fun hjid => hjid.elim id fun heq => heq ▸ hold⟩
  · constructor
    · rw [jobIds_handleDownloadInfo, if_neg hold, ← List.concat_eq_append]
      exact h.nodup.concat hold
    · intro jid
      rw [jobIds_handleDownloadInfo, if_neg hold, hstarted, List.mem_append, List.mem_singleton]

theorem Listed.other (h : Listed msgs items) (hm : m.msgType ≠ msgWriteFile) :
    Listed (msgs ++ [m]) items := by
  refine ⟨h.nodup, fun jid => ?_⟩
  simp [h.mem, stream_ne_nil_append, hm]

/-- A list that mirrors the downloads can only come about if no job ids are shared. -/
theorem Mirrors.jobsApart (hlist : Listed msgs (display q s.sent)) (h : Mirrors q msgs s) :
    JobsApart msgs := by
  obtain ⟨ids, -, hids, hshows⟩ := h
  have hsubset : (display q s.sent).map DownloadItem.jobId ⊆ ids.map fun id => jobId id.1 id.2 := by
    intro jid hjid
    obtain ⟨id, hid, hjob⟩ := (hlist.mem jid).1 hjid
    exact List.mem_map.2 ⟨id, (hids id).2 hid, hjob⟩
  have hlength := hshows.length_eq
  have hperm := (List.subperm_of_subset hlist.nodup hsubset).perm_of_length_le (by simp [hlength])
  have hnodup := hperm.nodup_iff.1 hlist.nodup
  intro id id' hid hid' hjob
  exact List.inj_on_of_nodup_map hnodup ((hids id).2 hid) ((hids id').2 hid') hjob

/-! ### The list without shared job ids -/

/-- What the progress bar makes of the announced size. -/
def barMaximum (q : QtVariants) (bs : List Bytes) : ℤ :=
  let size := wrap32 (announced q bs)
  if size = -1 ∧ chunks bs ≠ [] then 0 else size

/-- The item that a stream with these messages and this file has. -/
def itemOf (q : QtVariants) (id : I32 × I32) (file : Option QFile) (bs : List Bytes) :
    DownloadItem where
  jobId := jobId id.1 id.2
  fileName := (file.map QFile.fileName).getD []
  maximum := barMaximum q bs
  bytesReceived := (received bs).length
  finishedDownloading := ended bs

@[simp] theorem jobId_itemOf (file : Option QFile) :
    (itemOf q id file bs).jobId = jobId id.1 id.2 := rfl

/-- The list after these messages, if no two streams share a job id. -/
structure Displayed (q : QtVariants) (msgs : List Message) (s : State) (ids : List (I32 × I32)) :
    Prop where
  nodup : ids.Nodup
  mem : ∀ id, id ∈ ids ↔ stream id msgs ≠ []
  items : display q s.sent =
    ids.map fun id => itemOf q id (s.writeQueue id) (stream id msgs)

variable {ids : List (I32 × I32)}

theorem Displayed.jobIds (h : Displayed q msgs s ids) :
    (display q s.sent).map DownloadItem.jobId = ids.map fun id => jobId id.1 id.2 := by
  rw [h.items, List.map_map]
  rfl

theorem announced_append (hne : bs ≠ []) : announced q (bs ++ [b]) = announced q bs := by
  cases bs with
  | nil => exact absurd rfl hne
  | cons header bs => rfl

/-- A stream that has no item yet gets one. -/
theorem Displayed.start (h : Displayed q msgs s ids) (hm : m.msgType = msgWriteFile)
    (hapart : JobsApart (msgs ++ [m])) (hnew : stream (m.srcId, m.msgValue) msgs = [])
    (hqueue : ∀ id, id ≠ (m.srcId, m.msgValue) → s'.writeQueue id = s.writeQueue id)
    (hsent : display q s'.sent =
      handleDownloadInfo q (jobId m.srcId m.msgValue) data (display q s.sent))
    (hitem : DownloadItem.new (jobId m.srcId m.msgValue) (q.toString (q.read data).1)
        (q.toLongLong (q.read (q.read data).2).1) =
      itemOf q (m.srcId, m.msgValue) (s'.writeQueue (m.srcId, m.msgValue)) [m.payload.data]) :
    Displayed q (msgs ++ [m]) s' (ids ++ [(m.srcId, m.msgValue)]) := by
  have hfresh : (m.srcId, m.msgValue) ∉ ids := by
    rw [h.mem, not_not]
    exact hnew
  have hstarted : stream (m.srcId, m.msgValue) (msgs ++ [m]) ≠ [] :=
    stream_ne_nil_append.2 (Or.inr ⟨hm, rfl⟩)
  have hjob : jobId m.srcId m.msgValue ∉ (display q s.sent).map DownloadItem.jobId := by
    rw [h.jobIds, List.mem_map]
    rintro ⟨id, hid, hjob⟩
    exact hfresh (hapart id _ (started_append m ((h.mem id).1 hid)) hstarted hjob ▸ hid)
  constructor
  · rw [← List.concat_eq_append]
    exact h.nodup.concat hfresh
  · intro id
    rw [List.mem_append, List.mem_singleton, h.mem, stream_ne_nil_append]
    exact or_congr Iff.rfl ⟨fun heq => ⟨hm, heq.symm⟩, fun heq => heq.2.symm⟩
  · rw [hsent, handleDownloadInfo_new hjob, List.map_append, List.map_singleton, hitem,
      stream_append, hnew, stream_self hm, h.items, List.nil_append]
    refine congrArg (· ++ _) (List.map_congr_left fun id hid => ?_)
    have hne : id ≠ (m.srcId, m.msgValue) := fun heq => hfresh (heq ▸ hid)
    rw [hqueue id hne, stream_append, stream_of_ne_id hne.symm, List.append_nil]

/-- A stream that has an item gets it changed, and no other item changes. -/
theorem Displayed.again (h : Displayed q msgs s ids) (hm : m.msgType = msgWriteFile)
    (hapart : JobsApart (msgs ++ [m])) (hold : stream (m.srcId, m.msgValue) msgs ≠ [])
    (hqueue : ∀ id, id ≠ (m.srcId, m.msgValue) → s'.writeQueue id = s.writeQueue id)
    (hsent : display q s'.sent =
      handleDownloadInfo q (jobId m.srcId m.msgValue) data (display q s.sent))
    (hitem : updated q data (itemOf q (m.srcId, m.msgValue)
        (s.writeQueue (m.srcId, m.msgValue)) (stream (m.srcId, m.msgValue) msgs)) =
      itemOf q (m.srcId, m.msgValue) (s'.writeQueue (m.srcId, m.msgValue))
        (stream (m.srcId, m.msgValue) msgs ++ [m.payload.data])) :
    Displayed q (msgs ++ [m]) s' ids := by
  have hmem : (m.srcId, m.msgValue) ∈ ids := (h.mem _).2 hold
  have hjob : jobId m.srcId m.msgValue ∈ (display q s.sent).map DownloadItem.jobId := by
    rw [h.jobIds]
    exact List.mem_map_of_mem (f := fun id : I32 × I32 => jobId id.1 id.2) hmem
  have hinj : ∀ id ∈ ids, ∀ id' ∈ ids, jobId id.1 id.2 = jobId id'.1 id'.2 → id = id' := by
    intro id hid id' hid' hjob
    exact hapart id id' (started_append m ((h.mem id).1 hid))
      (started_append m ((h.mem id').1 hid')) hjob
  have hnodup : ((display q s.sent).map DownloadItem.jobId).Nodup := by
    rw [h.jobIds]
    exact List.Nodup.map_on hinj h.nodup
  constructor
  · exact h.nodup
  · intro id
    rw [h.mem, stream_ne_nil_append]
    refine ⟨Or.inl, fun hid => hid.elim (fun hid => hid) fun hid => ?_⟩
    rw [← hid.2]
    exact hold
  · rw [hsent, handleDownloadInfo_old hjob, modifyItem_eq_map _ hnodup, h.items, List.map_map]
    refine List.map_congr_left fun id hid => ?_
    by_cases heq : id = (m.srcId, m.msgValue)
    · subst heq
      rw [Function.comp_apply, jobId_itemOf, if_pos rfl, hitem, stream_append, stream_self hm]
    · rw [Function.comp_apply, jobId_itemOf, if_neg fun hjob => heq (hinj id hid _ hmem hjob),
        hqueue id heq, stream_append, stream_of_ne_id (Ne.symm heq), List.append_nil]

/-! ### One message -/

theorem read_write_end (hq : q.Lawful) (v : q.QVariant) : q.read (q.write v) = (v, []) := by
  have h := hq.read_write v []
  rwa [List.append_nil] at h

theorem updated_ofInt (hq : q.Lawful) {n : ℕ} (h : n < 2 ^ 31) (item : DownloadItem) :
    updated q (q.write (q.ofInt n)) item =
      if n > 0 then item.downloadProgress n else item.finished := by
  rw [updated, read_write_end hq, hq.toInt_ofInt n (by omega) (by omega)]
  simp

theorem barMaximum_of_chunks (hne : bs ≠ []) (h : chunks (bs ++ [b]) = chunks bs) :
    barMaximum q (bs ++ [b]) = barMaximum q bs := by
  rw [barMaximum, barMaximum, announced_append hne, h]

/-- The first data overwrites a size of -1. -/
theorem barMaximum_append (hne : bs ≠ []) (hgoing : ended bs = false) (hb : b ≠ []) :
    barMaximum q (bs ++ [b]) = if barMaximum q bs = -1 then 0 else barMaximum q bs := by
  have hchunks : chunks (bs ++ [b]) ≠ [] := by
    rw [chunks_append hne hgoing]
    simp [hb]
  simp only [barMaximum, announced_append hne, hchunks, ne_eq, not_false_eq_true, and_true]
  by_cases hsize : wrap32 (announced q bs) = -1
  · by_cases hnone : chunks bs = [] <;> simp [hsize, hnone]
  · simp [hsize]

/-- Every message to a stream keeps the list as it should be. -/
theorem Displayed.writes (hq : q.Lawful) (h : Displayed q msgs s ids) (hs : Stored d msgs s)
    (hm : m.msgType = msgWriteFile) (hapart : JobsApart (msgs ++ [m]))
    (hlength : m.payload.data.length < 2 ^ 31)
    (hw : Writes q s (m.srcId, m.msgValue) m.payload.data s') :
    ∃ ids, Displayed q (msgs ++ [m]) s' ids := by
  cases hw with
  | start name hnone hplain hfree =>
      refine ⟨_, h.start hm hapart ((hs.started _).1 hnone)
        (fun id hid => Function.update_of_ne hid _ _) (display_tellUi _ _ _ _) ?_⟩
      obtain ⟨hlo, hhi⟩ := hq.toLongLong_range (q.read (q.read m.payload.data).2).1
      have hsize := hq.toLongLong_ofLongLong (header q m.payload.data).2 hlo hhi
      rw [hq.read_write, read_write_end hq, hq.toString_ofString, hsize]
      simp [DownloadItem.new, itemOf, tellUi, barMaximum, announced, chunks, header]
  | write file hfile hopen hdata =>
      have hown := hs.own _ file hfile
      have hne := hs.ne_nil hfile
      have hgoing : ended (stream (m.srcId, m.msgValue) msgs) = false := by
        simpa [hopen] using hown.isOpen
      refine ⟨_, h.again hm hapart hne (fun id hid => Function.update_of_ne hid _ _)
        (display_tellUi _ _ _ _) ?_⟩
      have hpos : m.payload.data.length > 0 := List.length_pos_of_ne_nil hdata
      rw [updated_ofInt hq hlength, if_pos hpos]
      simp only [itemOf, DownloadItem.downloadProgress, tellUi, Function.update_self, hfile,
        barMaximum_append hne hgoing hdata, received_append hne hgoing, ended_append hne]
      simp [hdata]
  | ignore file hfile hclosed hdata =>
      have hown := hs.own _ file hfile
      have hne := hs.ne_nil hfile
      have hended : ended (stream (m.srcId, m.msgValue) msgs) = true := by
        simpa [hclosed] using hown.isOpen
      refine ⟨_, h.again hm hapart hne (fun id hid => rfl) (display_tellUi _ _ _ _) ?_⟩
      have hbar := barMaximum_of_chunks (q := q) hne
        (chunks_append_of_ended (b := m.payload.data) hended)
      rw [← Nat.cast_zero, updated_ofInt hq (by omega), if_neg (by omega)]
      simp [itemOf, DownloadItem.finished, tellUi, hbar, received_append_of_ended hended,
        ended_append hne, hended]
  | finish file hfile hdata =>
      have hne := hs.ne_nil hfile
      have hchunks : chunks (stream (m.srcId, m.msgValue) msgs ++ [m.payload.data]) =
          chunks (stream (m.srcId, m.msgValue) msgs) := by
        cases hended : ended (stream (m.srcId, m.msgValue) msgs) with
        | true => exact chunks_append_of_ended hended
        | false => simp [chunks_append hne hended, hdata]
      refine ⟨_, h.again hm hapart hne (fun id hid => Function.update_of_ne hid _ _)
        (display_tellUi _ _ _ _) ?_⟩
      rw [← Nat.cast_zero, updated_ofInt hq (by omega), if_neg (by omega)]
      rw [hdata] at hchunks
      simp [itemOf, DownloadItem.finished, tellUi, barMaximum_of_chunks hne hchunks, received,
        hchunks, ended_append hne, hdata, hfile]

/-! ### Runs -/

/-- The data of every message has a length that fits into its header. -/
def LengthsFit (msgs : List Message) : Prop := ∀ m ∈ msgs, m.payload.data.length < 2 ^ 31

theorem JobsApart.of_append (h : JobsApart (msgs ++ [m])) : JobsApart msgs :=
  fun id id' hid hid' => h id id' (started_append m hid) (started_append m hid')

/-- What is known of the component and the list after every run. -/
structure Told (q : QtVariants) (d : Directory) (msgs : List Message) (s : State) : Prop where
  stored : Stored d msgs s
  listed : Listed msgs (display q s.sent)
  displayed : LengthsFit msgs → JobsApart msgs → ∃ ids, Displayed q msgs s ids

theorem told_start (q : QtVariants) (d : Directory) : Told q d [] { dir := d } where
  stored := stored_start d
  listed := ⟨List.nodup_nil, fun jid => by simp [display, stream]⟩
  displayed := fun _ _ => ⟨[], List.nodup_nil, fun id => by simp [stream], rfl⟩

theorem Told.dispatched (hq : q.Lawful) (h : Told q d msgs s) (hstep : Dispatched q s m s') :
    Told q d (msgs ++ [m]) s' := by
  refine ⟨h.stored.dispatched hstep, ?_, fun hfit hapart => ?_⟩
  · cases hstep with
    | write hm hw => cases hw <;> (rw [display_tellUi]; exact h.listed.write hm)
    | other replies hm hreplies =>
        rw [display_replies hreplies]
        exact h.listed.other hm
  · obtain ⟨ids, hids⟩ := h.displayed (fun m' hm' => hfit m' (List.mem_append_left _ hm'))
      hapart.of_append
    cases hstep with
    | write hm hw =>
        exact hids.writes hq h.stored hm hapart (hfit m (by simp)) hw
    | other replies hm hreplies =>
        have hstream : ∀ id, stream id (msgs ++ [m]) = stream id msgs := by
          intro id
          rw [stream_append, stream_of_ne_type hm, List.append_nil]
        refine ⟨ids, hids.nodup, fun id => ?_, ?_⟩
        · rw [hstream]
          exact hids.mem id
        · simp only [display_replies hreplies, hstream]
          exact hids.items

theorem told_run (hq : q.Lawful) (d : Directory) (msgs : List Message) :
    ∃ s N, (∀ fuel > N, run q fuel d msgs = some s) ∧ Told q d msgs s :=
  run_ends q d (Told q d) (told_start q d) (fun _ _ _ _ hs hm => hs.dispatched hq hm) msgs

/-! ### When the list mirrors the downloads -/

/-- The progress bar has the announced size exactly if it can show it and still does. -/
theorem barMaximum_eq_iff : barMaximum q bs = announced q bs ↔ SizeShown q bs := by
  have hrange : -2 ^ 31 ≤ wrap32 (announced q bs) ∧ wrap32 (announced q bs) < 2 ^ 31 := by
    rw [wrap32]
    omega
  simp only [barMaximum]
  constructor
  · intro h
    split at h
    · rename_i hover
      rw [← h] at hover
      exact absurd hover.1 (by decide)
    · rename_i hover
      refine ⟨by omega, by omega, fun hsize => ?_⟩
      rw [not_and, not_not] at hover
      exact hover (h.trans hsize)
  · intro h
    rw [wrap32_of_range h.low h.high, if_neg]
    rintro ⟨hsize, hchunks⟩
    exact hchunks (h.known hsize)

theorem Displayed.shows (h : Displayed q msgs s ids) (hs : Stored d msgs s) (hid : id ∈ ids)
    (hsize : SizeShown q (stream id msgs)) :
    Shows q msgs s id (itemOf q id (s.writeQueue id) (stream id msgs)) where
  fileName := by
    cases hfile : s.writeQueue id with
    | none => exact absurd ((hs.started id).1 hfile) ((h.mem id).1 hid)
    | some file => rfl
  size := barMaximum_eq_iff.2 hsize
  bytesReceived := rfl
  finished := rfl

theorem exists_left {α β : Type*} {R : α → β → Prop} {as : List α} {bs : List β}
    (h : List.Forall₂ R as bs)
    {b : β} (hb : b ∈ bs) : ∃ a, R a b := by
  induction h with
  | nil => cases hb
  | cons hab _ ih =>
      cases hb with
      | head => exact ⟨_, hab⟩
      | tail _ hb => exact ih hb

/-- The item of a stream shows no other one, as the files have names of their own. -/
theorem Stored.eq_of_shows (hs : Stored d msgs s) (hid : stream id msgs ≠ [])
    (hshow : Shows q msgs s id' (itemOf q id (s.writeQueue id) (stream id msgs))) : id' = id := by
  by_contra hne
  cases hfile : s.writeQueue id with
  | none => exact hid ((hs.started id).1 hfile)
  | some file =>
      have hname := hshow.fileName
      rw [Option.map_eq_some_iff] at hname
      obtain ⟨file', hfile', hname⟩ := hname
      refine hs.apart id' id file' file hfile' hfile hne (hname.trans ?_)
      rw [hfile]
      rfl

/-- The list mirrors the downloads exactly if no job ids are shared and all sizes are shown. -/
theorem Told.mirrors_iff (h : Told q d msgs s) (hfit : LengthsFit msgs) :
    Mirrors q msgs s ↔
      JobsApart msgs ∧ ∀ id, stream id msgs ≠ [] → SizeShown q (stream id msgs) := by
  constructor
  · intro hmirrors
    have hapart := hmirrors.jobsApart h.listed
    obtain ⟨ids, hids⟩ := h.displayed hfit hapart
    refine ⟨hapart, fun id hid => ?_⟩
    obtain ⟨ids', -, -, hshows⟩ := hmirrors
    have hitem : itemOf q id (s.writeQueue id) (stream id msgs) ∈ display q s.sent := by
      rw [hids.items]
      exact List.mem_map.2 ⟨id, (hids.mem id).2 hid, rfl⟩
    obtain ⟨id', hshow⟩ := exists_left hshows hitem
    rw [h.stored.eq_of_shows hid hshow] at hshow
    exact barMaximum_eq_iff.1 hshow.size
  · rintro ⟨hapart, hsizes⟩
    obtain ⟨ids, hids⟩ := h.displayed hfit hapart
    refine ⟨ids, hids.nodup, hids.mem, ?_⟩
    rw [hids.items, List.forall₂_map_right_iff, List.forall₂_same]
    exact fun id hid => hids.shows h.stored hid (hsizes id ((hids.mem id).1 hid))

/-- Every run ends, with a list that mirrors the downloads exactly if no job ids are shared
and the progress bars show all sizes. -/
theorem mirrors_run (hq : q.Lawful) (d : Directory) (msgs : List Message)
    (hfit : LengthsFit msgs) :
    ∃ s N, (∀ fuel > N, run q fuel d msgs = some s) ∧
      (Mirrors q msgs s ↔
        JobsApart msgs ∧ ∀ id, stream id msgs ≠ [] → SizeShown q (stream id msgs)) := by
  obtain ⟨s, N, hrun, h⟩ := told_run hq d msgs
  exact ⟨s, N, hrun, h.mirrors_iff hfit⟩

/-- The first message of a download. -/
def startOf (webappId fileId : I32) (name : String) (size : ℤ) : Message where
  srcId := webappId
  dstId := storageId
  msgType := msgWriteFile
  msgValue := fileId
  payload := .ofBytes (Streams.variants.write (Streams.variants.ofString (.ofString name)) ++
    Streams.variants.write (Streams.variants.ofLongLong size))

/-- A directory without files. -/
def bare : Directory where
  files := ∅
  folders := [.ofString ".", .ofString ".."]
  dots := by decide

/-- Data of a download, or its end. -/
def dataOf (webappId fileId : I32) (text : String) : Message where
  srcId := webappId
  dstId := storageId
  msgType := msgWriteFile
  msgValue := fileId
  payload := .ofBytes (bytes text)

/-- Two downloads of one name at a time, of which the first one ends. -/
def crossing : List Message :=
  [startOf 1024 0 "a.txt" 3, startOf 1025 0 "a.txt" 5, dataOf 1024 0 "abc", dataOf 1025 0 "de",
    dataOf 1024 0 ""]

theorem mem_crossing {id : I32 × I32} (hid : stream id crossing ≠ []) :
    id = (1024, 0) ∨ id = (1025, 0) := by
  by_contra hother
  rw [not_or] at hother
  refine hid ?_
  simp [stream, crossing, startOf, dataOf, Ne.symm hother.1, Ne.symm hother.2]

theorem mirrors_run_crossing :
    ∃ s N, (∀ fuel > N, run Streams.variants fuel bare crossing = some s) ∧
      Mirrors Streams.variants crossing s ∧
        display Streams.variants s.sent =
          [⟨jobId 1024 0, .ofString "a.txt", 3, 3, true⟩,
            ⟨jobId 1025 0, .ofString "a-1.txt", 5, 2, false⟩] := by
  obtain ⟨s, N, hrun, hiff⟩ :=
    mirrors_run Streams.variants_lawful bare crossing (by unfold LengthsFit; decide +kernel)
  refine ⟨s, N, hrun, hiff.2 ⟨?_, ?_⟩, ?_⟩
  · intro id id' hid hid' hjob
    obtain rfl | rfl := mem_crossing hid <;> obtain rfl | rfl := mem_crossing hid'
    · rfl
    · exact absurd hjob (by decide)
    · exact absurd hjob (by decide)
    · rfl
  · intro id hid
    obtain rfl | rfl := mem_crossing hid
    · exact ⟨by decide +kernel, by decide +kernel, by decide +kernel⟩
    · exact ⟨by decide +kernel, by decide +kernel, by decide +kernel⟩
  · have hshort : (run Streams.variants 9 bare crossing).map
        (fun s => display Streams.variants s.sent) =
          some [⟨jobId 1024 0, .ofString "a.txt", 3, 3, true⟩,
            ⟨jobId 1025 0, .ofString "a-1.txt", 5, 2, false⟩] := by
      decide +kernel
    obtain ⟨t, ht, hdisplay⟩ := Option.map_eq_some_iff.1 hshort
    have hlong := run_add ht (N + 1)
    rw [hrun _ (by omega)] at hlong
    rw [Option.some.inj hlong]
    exact hdisplay

/-- The 1025th download of one web app and the first one of the next share a job id, and the
list has one item for both. -/
theorem shared_job_not_mirrored :
    ∃ s N, (∀ fuel > N, run Streams.variants fuel bare
        [startOf 1024 1024 "a.txt" 3, startOf 1025 0 "b.txt" 4] = some s) ∧
      ¬ Mirrors Streams.variants
        [startOf 1024 1024 "a.txt" 3, startOf 1025 0 "b.txt" 4] s := by
  obtain ⟨s, N, hrun, h⟩ := told_run Streams.variants_lawful bare
    [startOf 1024 1024 "a.txt" 3, startOf 1025 0 "b.txt" 4]
  refine ⟨s, N, hrun, fun hmirrors => ?_⟩
  have hsame := hmirrors.jobsApart h.listed (1024, 1024) (1025, 0) (by decide)
      (by decide) (by decide)
  exact absurd hsame (by decide)

end OpBrowser.Storage
