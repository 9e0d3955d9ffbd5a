import OpBrowser.Model.ReplyMetaData
import OpBrowser.Verification.Network.Requests

/-! # Attributes and headers come back from their stream

What `sendMetaDataIfNeeded` streams of one reply, `feedMetaData` sets in another one. Only a
header whose name holds a NUL does not come back. -/

namespace OpBrowser.Replies

open Network (QNetworkRequest setAll headerMap decodedHeaders)

variable {q : QtLists} {r : QNetworkReply q}

/-- The types are those of the documentation of Qt: no attribute is a list or a map, and an
error is an `int`. -/
structure Documented (r : QNetworkReply q) : Prop where
  attributes : ∀ code ≤ connectionEncryptedAttribute, q.isContainer (r.attributes code) = false
  error : -2 ^ 31 ≤ r.error ∧ r.error < 2 ^ 31

/-- The reply that a page has got says the same as another one. -/
structure Informs (told r : QNetworkReply q) : Prop where
  attributes : ∀ code ≤ connectionEncryptedAttribute, told.attributes code = r.attributes code
  error : told.error = r.error
  errorString : told.errorString = r.errorString
  /-- No header is lost, if no name is cut at a NUL. -/
  rawHeaders : told.headers.rawHeaders.Perm r.headers.rawHeaders ↔
    ∀ header ∈ r.headers.rawHeaders, (0 : UInt8) ∉ header.1

/-! ### Attributes -/

/-- Attributes with successive codes are set. -/
theorem attributes_foldl (f : ℕ → q.QVariant) (n start : ℕ) :
    (((List.range' start n).map f).zipIdx start).foldl
      (fun r entry => r.setAttribute entry.2 entry.1) r =
        { r with attributes := fun code =>
            if start ≤ code ∧ code < start + n then f code else r.attributes code } := by
  induction n generalizing r start with
  | zero =>
      have hnone : ∀ code, ¬ (start ≤ code ∧ code < start + 0) := by omega
      simp only [hnone, if_false]
      rfl
  | succ n ih =>
      rw [List.range'_succ, List.map_cons, List.zipIdx_cons, List.foldl_cons, ih]
      simp only [QNetworkReply.setAttribute]
      congr 1
      funext code
      by_cases hcode : code = start
      · subst hcode
        simp
      · have hsucc : (start + 1 ≤ code ∧ code < start + 1 + n) ↔
            (start ≤ code ∧ code < start + (n + 1)) := by omega
        simp only [hsucc, Function.update_of_ne hcode]

/-! ### Headers -/

theorem headers_foldl (l : List (Bytes × Bytes)) :
    l.foldl (fun r header => r.setRawHeader header.1 header.2) r =
      { r with headers := setAll r.headers l } := by
  induction l generalizing r with
  | nil => rfl
  | cons header l ih => exact ih

/-- The headers are set as the stream holds them. -/
theorem headers_decoded (req : QNetworkRequest q.QUrl) :
    (headerMap q.toQtMaps req).toList.foldl
      (fun r header => r.setRawHeader (QString.toLatin1 header.1) (q.toByteArray header.2)) r =
        { r with headers := setAll r.headers (decodedHeaders q.toQtMaps req) } := by
  rw [← headers_foldl, decodedHeaders, List.foldl_map]

/-- The URL does not matter when headers are set. -/
theorem rawHeaders_setAll {QUrl : Type} {a b : QNetworkRequest QUrl} (l : List (Bytes × Bytes))
    (h : a.rawHeaders = b.rawHeaders) : (setAll a l).rawHeaders = (setAll b l).rawHeaders := by
  induction l generalizing a b with
  | nil => exact h
  | cons header l ih =>
      refine ih (a := a.setRawHeader header.1 header.2) (b := b.setRawHeader header.1 header.2) ?_
      by_cases hname : header.1 = []
      · simpa [QNetworkRequest.setRawHeader, hname] using h
      · simp [QNetworkRequest.setRawHeader, hname, h]

theorem rawHeaders_decoded_iff (hq : q.Lawful) (url : q.QUrl) (req : QNetworkRequest q.QUrl) :
    (setAll { url } (decodedHeaders q.toQtMaps req)).rawHeaders.Perm req.rawHeaders ↔
      ∀ header ∈ req.rawHeaders, (0 : UInt8) ∉ header.1 := by
  have hsame : (setAll { url } (decodedHeaders q.toQtMaps req)).rawHeaders =
      (setAll { url := req.url } (decodedHeaders q.toQtMaps req)).rawHeaders :=
    rawHeaders_setAll _ rfl
  rw [← Network.sameRequest_decoded_iff hq.toMaps req, hsame]
  exact ⟨fun h => ⟨Network.url_setAll _, h⟩, fun h => h.rawHeaders⟩

theorem toMap_headerMap (hq : q.Lawful) (req : QNetworkRequest q.QUrl) :
    q.toMap (q.ofMap (headerMap q.toQtMaps req)) = headerMap q.toQtMaps req := by
  refine hq.toMap_ofMap _ fun entry hentry => ?_
  obtain ⟨header, -, rfl⟩ :=
    List.mem_map.mp ((Network.toList_headerMap_perm (q := q.toQtMaps) req).mem_iff.mp hentry)
  exact ⟨header.2, rfl⟩

/-! ### The whole -/

/-- `errorString` says something for every reply. -/
theorem errorString_ne_nil : r.errorString ≠ [] := by
  rw [QNetworkReply.errorString]
  split
  · decide
  · assumption

theorem feedMetaData_metaData (hq : q.Lawful) (hr : Documented r) (told : QNetworkReply q) :
    told.feedMetaData r.metaData =
      { headers := setAll told.headers (decodedHeaders q.toQtMaps r.headers)
        attributes := fun code =>
          if code ≤ connectionEncryptedAttribute then r.attributes code else told.attributes code
        error := r.error
        lastError := r.errorString } := by
  have hlist : q.toList (q.ofList ((List.range' 0 4).map r.attributes)) =
      (List.range' 0 4).map r.attributes := by
    refine hq.toList_ofList _ fun v hv => ?_
    obtain ⟨code, hcode, rfl⟩ := List.mem_map.mp hv
    have hle : code ≤ connectionEncryptedAttribute := by
      have hrange := (List.mem_range'_1.mp hcode).2
      rw [connectionEncryptedAttribute]
      omega
    exact hr.attributes code hle
  have hlast : q.read (q.write (q.ofString r.errorString)) = (q.ofString r.errorString, []) := by
    have hread := hq.read_write (q.ofString r.errorString) []
    rwa [List.append_nil] at hread
  have hdata : r.metaData = q.write (q.ofList ((List.range' 0 4).map r.attributes)) ++
      (q.write (q.ofMap (headerMap q.toQtMaps r.headers)) ++
        (q.write (q.ofInt r.error) ++ q.write (q.ofString r.errorString))) := rfl
  have hle : ∀ code, (0 ≤ code ∧ code < 0 + 4) ↔ code ≤ connectionEncryptedAttribute := by
    intro code
    rw [connectionEncryptedAttribute]
    omega
  have hset := attributes_foldl (r := told) r.attributes 4 0
  simp only [hle] at hset
  rw [QNetworkReply.feedMetaData, hdata]
  simp only [hq.read_write, hlast, hlist, toMap_headerMap hq,
    hq.toInt_ofInt _ hr.error.1 hr.error.2, hq.toString_ofString, httpStatusCodeAttribute, hset]
  rw [headers_decoded]
  rfl

theorem informs_feedMetaData (hq : q.Lawful) (hr : Documented r) (url : I32 → I32 → q.QUrl)
    (a urlId : I32) : Informs ((newReply url a urlId).feedMetaData r.metaData) r := by
  rw [feedMetaData_metaData hq hr]
  exact ⟨fun code hcode => if_pos hcode, rfl, if_neg errorString_ne_nil,
    rawHeaders_decoded_iff hq (url a urlId) r.headers⟩

/-- A reply keeps its URL. -/
theorem url_feedMetaData (hq : q.Lawful) (hr : Documented r) (told : QNetworkReply q) :
    (told.feedMetaData r.metaData).headers.url = told.headers.url := by
  rw [feedMetaData_metaData hq hr]
  exact Network.url_setAll _

end OpBrowser.Replies
