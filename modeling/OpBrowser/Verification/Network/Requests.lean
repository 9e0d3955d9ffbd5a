import OpBrowser.Verification.Network.MapStreams
import OpBrowser.Verification.Network.PostData
import OpBrowser.Verification.Texts.Latin1

/-! # The request of the page and that of the network component

Headers travel in a map of strings, from which the network component sets them one after the
other. -/

namespace OpBrowser.Network

variable {q : QtMaps} {QUrl : Type} {req : QNetworkRequest QUrl} {op : Operation}
  {outgoingData : Option Bytes} {urlId srcId : I32} {files : QString → Option Bytes}

/-- The same URL, and the same headers in any order. -/
structure SameRequest (a b : QNetworkRequest QUrl) : Prop where
  url : a.url = b.url
  rawHeaders : a.rawHeaders.Perm b.rawHeaders

/-- The operations with a body. -/
def Operation.Carries (op : Operation) : Prop := op = .put ∨ op = .post

/-- The message for a request, as the kernel passes it on. -/
def sent (q : QtMaps) (urlId srcId : I32) (op : Operation) (req : QNetworkRequest q.QUrl)
    (outgoingData : Option Bytes) : Message :=
  { createRequest q urlId op req outgoingData with srcId }

/-- The network component decodes the request of the page and performs it: the manager is asked
for this request only, and the reply is there when it is used. -/
structure Performs (q : QtMaps) (files : QString → Option Bytes) (urlId srcId : I32)
    (op : Operation) (req : QNetworkRequest q.QUrl) (outgoingData : Option Bytes) : Prop where
  method : (NetworkRequest.ofMessage q (sent q urlId srcId op req outgoingData)).method = op.toInt
  request : SameRequest
    (NetworkRequest.ofMessage q (sent q urlId srcId op req outgoingData)).request req
  postData : (NetworkRequest.ofMessage q (sent q urlId srcId op req outgoingData)).postData =
    outgoingData.getD []
  started : ∀ fuel > 0, ∃ issued,
    start files fuel (NetworkRequest.ofMessage q (sent q urlId srcId op req outgoingData)) =
      some { issued := [issued], replySet := true } ∧
    issued.op = op ∧ SameRequest issued.request req ∧
    (op.Carries → issued.body = some (outgoingData.getD []))

/-! ### Names of headers -/

theorem sameName_eq (a b : Bytes) : sameName a b =
    decide ((QString.fromAscii a).map QString.latin1Lower =
      (QString.fromAscii b).map QString.latin1Lower) := by
  simp [sameName, QString.fromAscii, Function.comp_def]

theorem sameName_comm (a b : Bytes) : sameName a b = sameName b a := by
  rw [sameName_eq, sameName_eq]
  exact decide_eq_decide.mpr eq_comm

theorem sameName_of_fromAscii {a b : Bytes} (h : QString.fromAscii a = QString.fromAscii b) :
    sameName a b = true := by
  rw [sameName_eq, h]
  exact decide_eq_true rfl

theorem toLatin1_fromAscii (b : Bytes) : (QString.fromAscii b).toLatin1 = cStr b :=
  toLatin1_map (cStr b)

/-- A header is found by its name. -/
theorem rawHeader_of_mem {header : Bytes × Bytes} (h : header ∈ req.rawHeaders) :
    req.rawHeader header.1 = header.2 := by
  have hfind : ∀ l : List (Bytes × Bytes), l.Pairwise (fun a b => sameName a.1 b.1 = false) →
      header ∈ l → l.find? (fun a => sameName a.1 header.1) = some header := by
    intro l hl hmem
    induction l with
    | nil => cases hmem
    | cons a l ih =>
        obtain ⟨ha, hrest⟩ := List.pairwise_cons.mp hl
        obtain rfl | hmem := List.mem_cons.mp hmem
        · exact List.find?_cons_of_pos (sameName_of_fromAscii rfl)
        · rw [List.find?_cons_of_neg (by simp [ha header hmem])]
          exact ih hrest hmem
  rw [QNetworkRequest.rawHeader, hfind req.rawHeaders req.distinct h]
  rfl

/-! ### The map of headers -/

/-- The map that the message holds. -/
def headerMap (q : QtMaps) (req : QNetworkRequest q.QUrl) : OrdMap QString q.QVariant :=
  req.rawHeaderList.foldl (fun headers headerName =>
    headers.insert (QString.fromAscii headerName) (q.ofByteArray (req.rawHeader headerName))) ∅

theorem toList_headerMap_perm (req : QNetworkRequest q.QUrl) : (headerMap q req).toList.Perm
    (req.rawHeaders.map fun header => (QString.fromAscii header.1, q.ofByteArray header.2)) := by
  have hkeys : req.rawHeaderList.Pairwise fun a b => QString.fromAscii a ≠ QString.fromAscii b := by
    refine List.pairwise_map.mpr (req.distinct.imp fun hdistinct heq => ?_)
    rw [sameName_of_fromAscii heq] at hdistinct
    cases hdistinct
  have hfill := OrdMap.toList_fill_perm (m := (∅ : OrdMap QString q.QVariant)) QString.fromAscii
    (fun headerName => q.ofByteArray (req.rawHeader headerName)) hkeys (by simp)
  have hentries : (req.rawHeaderList.map fun headerName =>
      (QString.fromAscii headerName, q.ofByteArray (req.rawHeader headerName))) =
      req.rawHeaders.map fun header => (QString.fromAscii header.1, q.ofByteArray header.2) := by
    rw [QNetworkRequest.rawHeaderList, List.map_map]
    refine List.map_congr_left fun header hheader => ?_
    rw [Function.comp_apply, rawHeader_of_mem hheader]
  have hempty : (∅ : OrdMap QString q.QVariant).toList = [] := by simp [← List.isEmpty_iff]
  rw [hentries, hempty, List.nil_append] at hfill
  exact hfill

/-! ### Setting headers -/

/-- The headers of a list are set one after the other. -/
def setAll (req : QNetworkRequest QUrl) (l : List (Bytes × Bytes)) : QNetworkRequest QUrl :=
  l.foldl (fun req header => req.setRawHeader header.1 header.2) req

@[simp] theorem url_setRawHeader (headerName value : Bytes) :
    (req.setRawHeader headerName value).url = req.url := by
  rw [QNetworkRequest.setRawHeader]
  split <;> rfl

theorem url_setAll (l : List (Bytes × Bytes)) : (setAll req l).url = req.url := by
  induction l generalizing req with
  | nil => rfl
  | cons header l ih =>
      have hrest : (setAll (req.setRawHeader header.1 header.2) l).url = _ := ih
      rw [url_setRawHeader] at hrest
      exact hrest

theorem mem_setRawHeader {headerName value : Bytes} {header : Bytes × Bytes}
    (h : header ∈ (req.setRawHeader headerName value).rawHeaders) :
    header ∈ req.rawHeaders ∨ header = (headerName, value) := by
  rw [QNetworkRequest.setRawHeader] at h
  split at h
  · exact Or.inl h
  · obtain h | h := List.mem_append.mp h
    · exact Or.inl (List.mem_filter.mp h).1
    · exact Or.inr (List.mem_singleton.mp h)

/-- No header comes from anywhere else. -/
theorem mem_setAll {l : List (Bytes × Bytes)} {header : Bytes × Bytes}
    (h : header ∈ (setAll req l).rawHeaders) : header ∈ req.rawHeaders ∨ header ∈ l := by
  induction l generalizing req with
  | nil => exact Or.inl h
  | cons first l ih =>
      have hrest : header ∈ (setAll (req.setRawHeader first.1 first.2) l).rawHeaders := h
      obtain h | h := ih hrest
      · obtain h | rfl := mem_setRawHeader h
        · exact Or.inl h
        · exact Or.inr List.mem_cons_self
      · exact Or.inr (List.mem_cons_of_mem first h)

theorem setRawHeader_new {headerName value : Bytes} (hname : headerName ≠ [])
    (hnew : ∀ header ∈ req.rawHeaders, sameName header.1 headerName = false) :
    (req.setRawHeader headerName value).rawHeaders = req.rawHeaders ++ [(headerName, value)] := by
  rw [QNetworkRequest.setRawHeader, dif_neg hname]
  dsimp only
  rw [List.filter_eq_self.mpr]
  intro header hheader
  rw [hnew header hheader]
  rfl

/-- Headers with names of their own are all kept. -/
theorem setAll_distinct {l : List (Bytes × Bytes)} (hnamed : ∀ header ∈ l, header.1 ≠ [])
    (hdistinct : (req.rawHeaders ++ l).Pairwise fun a b => sameName a.1 b.1 = false) :
    (setAll req l).rawHeaders = req.rawHeaders ++ l := by
  induction l generalizing req with
  | nil => exact (List.append_nil _).symm
  | cons header l ih =>
      have hnew : (req.setRawHeader header.1 header.2).rawHeaders = req.rawHeaders ++ [header] := by
        refine setRawHeader_new (hnamed header List.mem_cons_self) fun earlier hearlier => ?_
        exact (List.pairwise_append.mp hdistinct).2.2 earlier hearlier header List.mem_cons_self
      have hsplit : req.rawHeaders ++ [header] ++ l = req.rawHeaders ++ header :: l := by simp
      have hrest : (setAll (req.setRawHeader header.1 header.2) l).rawHeaders = _ :=
        ih (fun later hlater => hnamed later (List.mem_cons_of_mem header hlater))
          (by rwa [hnew, hsplit])
      rw [hnew, hsplit] at hrest
      exact hrest

/-! ### Decoding -/

/-- The headers as the network component reads them from the map. -/
def decodedHeaders (q : QtMaps) (req : QNetworkRequest q.QUrl) : List (Bytes × Bytes) :=
  (headerMap q req).toList.map fun header => (QString.toLatin1 header.1, q.toByteArray header.2)

theorem ofMessage_sent (hq : q.Lawful) (urlId srcId : I32) (op : Operation)
    (req : QNetworkRequest q.QUrl) (outgoingData : Option Bytes) :
    NetworkRequest.ofMessage q (sent q urlId srcId op req outgoingData) =
      { method := op.toInt
        request := setAll { url := req.url } (decodedHeaders q req)
        postData := outgoingData.getD []
        urlId
        srcId } := by
  have hmap : q.toMap (q.ofMap (headerMap q req)) = headerMap q req := by
    refine hq.toMap_ofMap _ fun entry hentry => ?_
    obtain ⟨header, -, rfl⟩ := List.mem_map.mp ((toList_headerMap_perm req).mem_iff.mp hentry)
    exact ⟨header.2, rfl⟩
  have hop : q.toInt (q.ofInt op.toInt) = op.toInt := by
    refine hq.toInt_ofInt _ ?_ ?_ <;> cases op <;> decide
  have hlast : q.read (q.write (q.ofByteArray (outgoingData.getD []))) =
      (q.ofByteArray (outgoingData.getD []), []) := by
    have hread := hq.read_write (q.ofByteArray (outgoingData.getD [])) []
    rwa [List.append_nil] at hread
  have hdata : (sent q urlId srcId op req outgoingData).payload.data =
      q.write (q.ofInt op.toInt) ++ (q.write (q.ofUrl req.url) ++
        (q.write (q.ofMap (headerMap q req)) ++ q.write (q.ofByteArray (outgoingData.getD [])))) :=
    rfl
  rw [NetworkRequest.ofMessage, hdata]
  simp only [hq.read_write, hlast, hmap, hop, hq.toUrl_ofUrl, hq.toByteArray_ofByteArray, setAll,
    decodedHeaders, List.foldl_map]
  rfl

theorem no_nul_decoded {header : Bytes × Bytes} {req : QNetworkRequest q.QUrl}
    (h : header ∈ decodedHeaders q req) : (0 : UInt8) ∉ header.1 := by
  obtain ⟨entry, hentry, rfl⟩ := List.mem_map.mp h
  obtain ⟨original, -, rfl⟩ := List.mem_map.mp ((toList_headerMap_perm req).mem_iff.mp hentry)
  rw [toLatin1_fromAscii]
  exact no_nul_cStr original.1

theorem decodedHeaders_perm (hq : q.Lawful) {req : QNetworkRequest q.QUrl}
    (h : ∀ header ∈ req.rawHeaders, (0 : UInt8) ∉ header.1) :
    (decodedHeaders q req).Perm req.rawHeaders := by
  have hmapped := (toList_headerMap_perm req).map fun header =>
    (QString.toLatin1 header.1, q.toByteArray header.2)
  have hback : ∀ header ∈ req.rawHeaders, (QString.toLatin1 (QString.fromAscii header.1),
      q.toByteArray (q.ofByteArray header.2)) = header := by
    intro header hheader
    rw [toLatin1_fromAscii, cStr_of_no_nul (h header hheader), hq.toByteArray_ofByteArray]
  rw [List.map_map, Function.comp_def, List.map_congr_left hback, List.map_id'] at hmapped
  exact hmapped

/-- The request survives exactly if no name of a header is cut at a NUL. -/
theorem sameRequest_decoded_iff (hq : q.Lawful) (req : QNetworkRequest q.QUrl) :
    SameRequest (setAll { url := req.url } (decodedHeaders q req)) req ↔
      ∀ header ∈ req.rawHeaders, (0 : UInt8) ∉ header.1 := by
  constructor
  · intro h header hheader
    obtain hnone | hdecoded := mem_setAll (h.rawHeaders.mem_iff.mpr hheader)
    · cases hnone
    · exact no_nul_decoded hdecoded
  · intro h
    have hperm := decodedHeaders_perm hq h
    have hsymm : ∀ {a b : Bytes × Bytes}, sameName a.1 b.1 = false → sameName b.1 a.1 = false := by
      intro a b hab
      rwa [sameName_comm]
    have hset : (setAll { url := req.url } (decodedHeaders q req)).rawHeaders =
        decodedHeaders q req :=
      setAll_distinct (fun header hheader => req.named header (hperm.mem_iff.mp hheader))
        ((hperm.pairwise_iff hsymm).mpr req.distinct)
    exact ⟨url_setAll _, by rw [hset]; exact hperm⟩

/-! ### Performing -/

theorem toInt_eq_get : op.toInt = getOperation ↔ op = .get := by
  cases op <;> decide

theorem toInt_eq_post : op.toInt = postOperation ↔ op = .post := by
  cases op <;> decide

theorem start_get {r : NetworkRequest QUrl} (h : r.method = getOperation) (fuel : ℕ) :
    start files fuel r =
      some { issued := [{ op := .get, request := r.request }], replySet := true } := by
  rw [start, if_pos h]

theorem start_other {r : NetworkRequest QUrl} (hget : r.method ≠ getOperation)
    (hpost : r.method ≠ postOperation) (fuel : ℕ) : start files fuel r = some {} := by
  rw [start, if_neg hget, if_neg hpost]

/-- A body without markers is posted as it is. -/
theorem start_post {r : NetworkRequest QUrl} (h : r.method = postOperation)
    (hbody : Free r.postData) (fuel : ℕ) : start files (fuel + 1) r =
      some { issued := [{ op := .post, request := r.request, body := some r.postData }]
             replySet := true } := by
  have hstops : Stops r.postData := by
    rw [Stops, indexOf_absent isMarker_fnBegin hbody.1, indexOf_absent isMarker_fnEnd hbody.2]
  have hprocess : processPostData files (fuel + 1) r.method r.postData = some (r.postData, []) := by
    rw [processPostData]
    split
    · rfl
    · exact expand_of_stops hstops fuel []
  have hget : r.method ≠ getOperation := by rw [h]; decide
  rw [start, if_neg hget, if_pos h, hprocess]
  rfl

/-- For the other operations the manager is asked for nothing, and `m_reply` is used all the
same. -/
theorem not_performs_other (hq : q.Lawful) {req : QNetworkRequest q.QUrl} (hget : op ≠ .get)
    (hpost : op ≠ .post) : ¬ Performs q files urlId srcId op req outgoingData := by
  intro h
  obtain ⟨issued, hstart, -⟩ := h.started 1 Nat.one_pos
  rw [ofMessage_sent hq, start_other (fun hmethod => hget (toInt_eq_get.mp hmethod))
    (fun hmethod => hpost (toInt_eq_post.mp hmethod))] at hstart
  cases hstart

/-- **Which requests the network component performs**: a GET or a POST exactly if no name of a
header holds a NUL, and nothing else. -/
theorem performs_iff (hq : q.Lawful) (files : QString → Option Bytes) (urlId srcId : I32)
    (op : Operation) (req : QNetworkRequest q.QUrl) {outgoingData : Option Bytes}
    (hbody : Free (outgoingData.getD [])) :
    Performs q files urlId srcId op req outgoingData ↔
      (op = .get ∨ op = .post) ∧ ∀ header ∈ req.rawHeaders, (0 : UInt8) ∉ header.1 := by
  have hdecoded := ofMessage_sent hq urlId srcId op req outgoingData
  have hsame := sameRequest_decoded_iff hq req
  constructor
  · intro h
    have hrequest := h.request
    rw [hdecoded] at hrequest
    refine ⟨?_, hsame.mp hrequest⟩
    by_contra hop
    rw [not_or] at hop
    exact not_performs_other hq hop.1 hop.2 h
  · rintro ⟨hop, hnul⟩
    have hrequest := hsame.mpr hnul
    refine ⟨by rw [hdecoded], by rw [hdecoded]; exact hrequest, by rw [hdecoded], ?_⟩
    intro fuel hfuel
    rw [hdecoded]
    obtain rfl | rfl := hop
    · refine ⟨_, start_get rfl fuel, rfl, hrequest, ?_⟩
      rintro (hput | hpost)
      · cases hput
      · cases hpost
    · obtain ⟨fuel, rfl⟩ := Nat.exists_eq_succ_of_ne_zero hfuel.ne'
      exact ⟨_, start_post rfl hbody fuel, rfl, hrequest, fun _ => rfl⟩

/-! ### One request -/

def formRequest : QNetworkRequest Streams.maps.QUrl where
  url := bytes "http://a/form"
  rawHeaders := [(bytes "Accept", bytes "*/*"), (bytes "Referer", bytes "http://a/")]
  named := by simp [bytes]
  distinct := by decide

theorem performs_iff_form :
    Performs Streams.maps (fun _ => none) 7 1024 .post formRequest (some (bytes "a=b")) ↔
      (Operation.post = .get ∨ Operation.post = .post) ∧
        ∀ header ∈ formRequest.rawHeaders, (0 : UInt8) ∉ header.1 :=
  performs_iff Streams.maps_lawful (fun _ => none) 7 1024 .post formRequest
    (by constructor <;> decide)

theorem head_not_performed :
    ¬ Performs Streams.maps (fun _ => none) 7 1024 .head formRequest none :=
  not_performs_other Streams.maps_lawful (by decide) (by decide)

end OpBrowser.Network
