import OpBrowser.Verification.Downloads.Replies
import OpBrowser.Verification.Storage.Files

/-! # What downloaders send

A downloader sends a header, what its reply has returned and an empty message for the end, or
nothing at all as long as nothing has come since it was made. -/

namespace OpBrowser.Downloads

open Response Traffic

/-! ### One downloader -/

namespace OpDownloader

variable {header data : Bytes} {d : OpDownloader}

theorem downloadReadyRead_eq (h : data ≠ []) : d.downloadReadyRead header data =
    ({ d with sent := true, bytes := d.bytes + data.length },
      (if d.sent then [] else [header]) ++ [data]) := by
  rw [downloadReadyRead, if_pos (List.length_pos_of_ne_nil h)]
  cases hsent : d.sent with
  | false => simp [start]
  | true => simp [← hsent]

theorem downloadReadyRead_reqId : (d.downloadReadyRead header data).1.reqId = d.reqId := by
  rw [downloadReadyRead]
  split
  · cases d.sent <;> rfl
  · rfl

theorem init_finished (header data : Bytes) (hfinished : d.finished = false) :
    ∃ bytes, d.init header true data =
      ({ d with sent := true, finished := true, bytes },
        header :: (if data = [] then [] else [data]) ++ [[]]) := by
  by_cases hdata : data = []
  · exact ⟨d.bytes, by simp [init, start, downloadReadyRead, finish, hdata, hfinished]⟩
  · refine ⟨d.bytes + data.length, ?_⟩
    simp [init, start, downloadReadyRead, finish, hdata, hfinished, List.length_pos_iff]

end OpDownloader

/-- The data that a downloader has sent so far. -/
inductive Serves (v : View) (d : OpDownloader) : List Bytes → Prop where
  | waiting (held : Bytes) (hsent : d.sent = false) (hlate : d.late = false)
      (hheld : held.length = d.waiting) (hunread : v.reply.map (·.reply.unread) = some held)
      (hreturned : v.record.returned = [])
      (hfinished : d.finished = true ↔ v.record.finishedSignals ≠ 0) : Serves v d []
  | sending (header : Bytes) (chunks : List Bytes) (hsent : d.sent = true)
      (hlong : d.late = true ∨ d.waiting < v.record.returned.length)
      (hchunks : ∀ c ∈ chunks, c ≠ []) (hflatten : chunks.flatten = v.record.returned)
      (hunread : v.reply.map (·.reply.unread) = some [])
      (hfinished : d.finished = true ↔ v.record.finishedSignals ≠ 0) :
      Serves v d (header :: chunks ++ if d.finished then [[]] else [])

section Serves

variable {v v' : View} {d : OpDownloader} {bs : List Bytes} {header data held : Bytes}

theorem Serves.same (h : Serves v d bs) (hs : Same v v') : Serves v' d bs := by
  cases h with
  | waiting held hsent hlate hheld hunread hreturned hfinished =>
      exact Serves.waiting held hsent hlate hheld (hs.unread.trans hunread)
        (hs.returned.trans hreturned) (by rwa [hs.finishedSignals])
  | sending header chunks hsent hlong hchunks hflatten hunread hfinished =>
      exact Serves.sending header chunks hsent (by rwa [hs.returned]) hchunks
        (hflatten.trans hs.returned.symm) (hs.unread.trans hunread) (by rwa [hs.finishedSignals])

theorem Serves.made (h : Serves v d bs) : v.reply ≠ none := by
  intro hnone
  cases h with
  | waiting held hsent hlate hheld hunread hreturned hfinished => simp [hnone] at hunread
  | sending header chunks hsent hlong hchunks hflatten hunread hfinished => simp [hnone] at hunread

/-- The reply is finished. -/
theorem Serves.finish (h : Serves v d bs) (hbefore : v.record.finishedSignals = 0)
    (hunread : v'.reply.map (·.reply.unread) = v.reply.map (·.reply.unread))
    (hreturned : v'.record.returned = v.record.returned)
    (hafter : v'.record.finishedSignals ≠ 0) : Serves v' d.finish.1 (bs ++ d.finish.2) := by
  have hafter' : d.finish.1.finished = true ↔ v'.record.finishedSignals ≠ 0 :=
    ⟨fun _ => hafter, fun _ => rfl⟩
  cases h with
  | waiting held hsent hlate hheld hheld' hreturned' hfinished =>
      have hnothing : d.finish.2 = [] := by simp [OpDownloader.finish, hsent]
      rw [hnothing]
      exact Serves.waiting held hsent hlate hheld (hunread.trans hheld')
        (hreturned.trans hreturned') hafter'
  | sending header chunks hsent hlong hchunks hflatten hempty hfinished =>
      have hnot : d.finished = false := by simpa [hbefore] using hfinished
      have hend : d.finish.2 = [[]] := by simp [OpDownloader.finish, hsent, hnot]
      have hsending := Serves.sending (v := v') (d := d.finish.1) header chunks hsent
        (by rw [hreturned]; exact hlong) hchunks (hflatten.trans hreturned.symm)
        (hunread.trans hempty) hafter'
      simpa [hsent, hnot, hend, OpDownloader.finish] using hsending

/-- The reply has got data, and all that it holds is read. -/
theorem Serves.readyRead (h : Serves v d bs) (hdata : data ≠ [])
    (hbefore : v.record.finishedSignals = 0)
    (hheld : v.reply.map (·.reply.unread) = some held)
    (hunread : v'.reply.map (·.reply.unread) = some [])
    (hreturned : v'.record.returned = v.record.returned ++ (held ++ data))
    (hafter : v'.record.finishedSignals = v.record.finishedSignals) :
    Serves v' (d.downloadReadyRead header (held ++ data)).1
      (bs ++ (d.downloadReadyRead header (held ++ data)).2) := by
  have hne : held ++ data ≠ [] := by simp [hdata]
  have hpos : 0 < data.length := List.length_pos_of_ne_nil hdata
  rw [OpDownloader.downloadReadyRead_eq hne]
  cases h with
  | waiting held' hsent hlate hlength hheld' hreturned' hfinished =>
      have hnot : d.finished = false := by simpa [hbefore] using hfinished
      obtain rfl : held = held' := by simpa [hheld] using hheld'
      rw [hreturned', List.nil_append] at hreturned
      have hsending := Serves.sending (v := v')
        (d := { d with sent := true, bytes := d.bytes + (held ++ data).length })
        header [held ++ data] rfl
        (Or.inr (by change d.waiting < _; rw [hreturned, List.length_append]; omega))
        (by simpa using hne) (by simp [hreturned]) hunread (by rw [hafter]; exact hfinished)
      simpa [hsent, hnot] using hsending
  | sending first chunks hsent hlong hchunks hflatten hempty hfinished =>
      have hnot : d.finished = false := by simpa [hbefore] using hfinished
      obtain rfl : held = [] := by simpa [hheld] using hempty
      have hsending := Serves.sending (v := v')
        (d := { d with sent := true, bytes := d.bytes + ([] ++ data).length })
        first (chunks ++ [[] ++ data]) rfl
        (hlong.imp id fun hlt => by
          change d.waiting < _; rw [hreturned, List.length_append]; omega)
        (by simpa [or_imp, forall_and, hdata] using hchunks)
        (by simp [hflatten, hreturned]) hunread (by rw [hafter]; exact hfinished)
      simpa [hsent, hnot] using hsending

end Serves

/-! ### The messages to the storage component -/

section Messages

open Storage

variable {a b : I32} {id : I32 × I32} {k : I32} {msgs : List Message} {l : List Bytes}

theorem stream_append_list (msgs' : List Message) :
    stream id (msgs ++ msgs') = stream id msgs ++ stream id msgs' := by
  simp [stream]

theorem stream_request_self : stream (a, k) (l.map (request a k)) = l := by
  have hall : (l.map (request a k)).filter (fun m => m.msgType = msgWriteFile ∧
      (m.srcId, m.msgValue) = (a, k)) = l.map (request a k) := by
    rw [List.filter_eq_self]
    intro m hm
    obtain ⟨data, -, rfl⟩ := List.mem_map.mp hm
    simp [request]
  rw [stream, hall, List.map_map]
  exact List.map_id l

theorem stream_request_of_ne (h : (b, k) ≠ id) : stream id (l.map (request b k)) = [] := by
  rw [stream, List.map_eq_nil_iff, List.filter_eq_nil_iff]
  intro m hm
  obtain ⟨data, -, rfl⟩ := List.mem_map.mp hm
  simpa [request] using h

end Messages

/-! ### Reading all of a reply -/

section ReadAll

variable {s : Traffic.State} {a u v : I32} {r : Reply}

theorem readAll_bytes (hr : (s.webApps a).replies[u]? = some r) :
    (readAll a u s).1 = r.reply.unread := by
  simp only [readAll, hr]
  rw [OpNetworkReply.readData_bytes, List.take_of_length_le]
  simp [OpNetworkReply.unread]

theorem readAll_state (hr : (s.webApps a).replies[u]? = some r) :
    (readAll a u s).2 = Traffic.readData s a u r.reply.readBuffer.data.length := by
  simp only [readAll, hr]

theorem view_readAll (hr : (s.webApps a).replies[u]? = some r) :
    (view (readAll a u s).2 a u).reply.map (·.reply.unread) = some [] ∧
      (view (readAll a u s).2 a u).record =
        { s.record a u with returned := (s.record a u).returned ++ r.reply.unread } := by
  have hbytes := readAll_bytes hr
  simp only [readAll, hr] at hbytes
  rw [readAll_state hr, Traffic.readData]
  simp only [hr]
  rw [view_setRecord_self, view_setReply_self, OpNetworkReply.readData_eq]
  rw [OpNetworkReply.readData_eq] at hbytes
  constructor
  · have hempty : r.reply.unread.length ≤ r.reply.readBuffer.data.length := by
      simp [OpNetworkReply.unread]
    simp [OpNetworkReply.advance_unread, hempty]
  · dsimp only at hbytes ⊢
    rw [hbytes]
    rfl

theorem view_readAll_of_ne (hv : v ≠ u) : view (readAll a u s).2 a v = view s a v := by
  rw [readAll]
  split
  · rfl
  · exact view_readData_of_ne (fun h => hv h.2.symm) _

theorem view_readAll_other {b : I32} (hb : b ≠ a) : view (readAll b u s).2 a v = view s a v := by
  rw [readAll]
  split
  · rfl
  · exact view_readData_of_ne (fun h => hb h.1) _

end ReadAll

end OpBrowser.Downloads
