import OpBrowser.Model.NewUrlMsg
import OpBrowser.Verification.DomainName.Origin
import OpBrowser.Verification.Kernel.NewUrl
import OpBrowser.Verification.Storage.Streams

/-! # The two readers of a new URL

The kernel labels a process by the text in front of the NUL, and the process loads the
URL behind it. -/

namespace OpBrowser

open Kernel WebView Streams

variable (q : Qt)

/-- The kernel finds a text in the data, and its label is the label of the URL that the
web app takes from the same data. -/
def ReadersAgree (data : Payload) : Prop :=
  ∀ s : KState, Outcome (stringOfData data) s
    (fun url _ => DomainName.equals (.ofUrl url)
      (.ofUrl (q.toLatin1 (decodedNewUrlMsg q data.data).url)))
    fun _ _ => False

/-- How a sender makes the data: a text, a NUL, and behind it nothing or a stream that starts
with a variant. It means the URL in this variant, and without one Qt's reading of the text. -/
inductive Made : Bytes → Bytes → q.QUrl → Prop
  | bare {text : Bytes} (no_nul : (0 : UInt8) ∉ text) : Made (text ++ [0]) text (q.fromText text)
  | streamed {text : Bytes} {v : q.QVariant} (rest : Bytes) (no_nul : (0 : UInt8) ∉ text)
      (url : q.isEmpty (q.toUrl v) = false) :
      Made (text ++ 0 :: (q.write v ++ rest)) text (q.toUrl v)
  | unnamed {text : Bytes} {v : q.QVariant} (rest : Bytes) (no_nul : (0 : UInt8) ∉ text)
      (url : q.isEmpty (q.toUrl v) = true) :
      Made (text ++ 0 :: (q.write v ++ rest)) text (q.fromText text)

/-- The text and the URL have one label. -/
def SameLabel (text : Bytes) (url : q.QUrl) : Prop :=
  DomainName.equals (.ofUrl text) (.ofUrl (q.toLatin1 url))

/-- The sender means one site with the text and the URL. -/
def HonestData (data : Bytes) : Prop := ∃ text url, Made q data text url ∧ SameLabel q text url

/-- The sender leaves out the NUL, or means two sites. -/
def DeceptiveData (data : Bytes) : Prop :=
  (0 : UInt8) ∉ data ∨ ∃ text url, Made q data text url ∧ ¬ SameLabel q text url

/-! ### What the web app reads -/

theorem drop_text {text : Bytes} (h : (0 : UInt8) ∉ text) (tail : Bytes) :
    (text ++ 0 :: tail).drop ((cStr (text ++ 0 :: tail)).length + 1) = tail := by
  rw [cStr_append_nul h, ← List.drop_drop, List.drop_left, List.drop_one, List.tail_cons]

theorem readVariants_append (hq : q.Lawful) (v : q.QVariant) (rest : Bytes) :
    (readVariants q (q.write v ++ rest)).1 = v := by
  have hne : q.write v ++ rest ≠ [] := by
    simp [hq.write_ne v]
  simp only [readVariants, if_neg hne, hq.read_write]

/-- The URL that the web app reads behind a text. -/
theorem url_decodedNewUrlMsg {text : Bytes} (hnul : (0 : UInt8) ∉ text) (tail : Bytes) :
    (decodedNewUrlMsg q (text ++ 0 :: tail)).url =
      if !q.isEmpty (q.toUrl (readVariants q tail).1) then q.toUrl (readVariants q tail).1
      else q.fromText text := by
  rw [decodedNewUrlMsg]
  dsimp only
  rw [drop_text hnul, cStr_append_nul hnul]

/-- Both readers find what the sender has put into the data. -/
theorem Made.read (hq : q.Lawful) (hinvalid : q.isEmpty (q.toUrl q.invalid) = true)
    {data text : Bytes} {url : q.QUrl} (h : Made q data text url) :
    (0 : UInt8) ∈ data ∧ cStr data = text ∧ (decodedNewUrlMsg q data).url = url := by
  cases h with
  | bare no_nul =>
      refine ⟨by simp, cStr_append_nul no_nul [], ?_⟩
      rw [url_decodedNewUrlMsg q no_nul, readVariants, if_pos rfl, hinvalid]
      rfl
  | streamed rest no_nul url =>
      refine ⟨by simp, cStr_append_nul no_nul _, ?_⟩
      rw [url_decodedNewUrlMsg q no_nul, readVariants_append q hq, url]
      rfl
  | unnamed rest no_nul url =>
      refine ⟨by simp, cStr_append_nul no_nul _, ?_⟩
      rw [url_decodedNewUrlMsg q no_nul, readVariants_append q hq, url]
      rfl

/-- The kernel has a text only if there is a NUL. -/
theorem readersAgree_labels (data : Payload) : ReadersAgree q data ↔
    (0 : UInt8) ∈ data.data ∧ DomainName.equals (.ofUrl (cStr data.data))
      (.ofUrl (q.toLatin1 (decodedNewUrlMsg q data.data).url)) := by
  constructor
  · intro hagree
    have h := hagree (blank false 0)
    rw [stringOfData_outcome] at h
    obtain ⟨hlabel, hnone⟩ := h
    by_cases hnul : (0 : UInt8) ∈ data.data
    · exact ⟨hnul, hlabel hnul⟩
    · exact (hnone hnul).elim
  · rintro ⟨hnul, hlabel⟩ s
    rw [stringOfData_outcome]
    exact ⟨fun _ => hlabel, fun h => absurd hnul h⟩

/-- On data that somebody made they agree exactly if one site was meant. -/
theorem Made.readersAgree_iff (hq : q.Lawful) (hinvalid : q.isEmpty (q.toUrl q.invalid) = true)
    {data : Payload} {text : Bytes} {url : q.QUrl} (h : Made q data.data text url) :
    ReadersAgree q data ↔ SameLabel q text url := by
  obtain ⟨hnul, htext, hurl⟩ := h.read q hq hinvalid
  rw [readersAgree_labels, htext, hurl]
  exact and_iff_right hnul

/-- The readers agree on honest data, and disagree on all data that leaves out the NUL or in
which two sites are put. -/
theorem readersAgree_of_honest (hq : q.Lawful) (hinvalid : q.isEmpty (q.toUrl q.invalid) = true)
    (data : Payload) : (HonestData q data.data → ReadersAgree q data) ∧
      (DeceptiveData q data.data → ¬ ReadersAgree q data) := by
  constructor
  · rintro ⟨text, url, hmade, hlabel⟩
    exact (hmade.readersAgree_iff q hq hinvalid).mpr hlabel
  · rintro (hnul | ⟨text, url, hmade, hlabel⟩) hagree
    · exact hnul ((readersAgree_labels q data).mp hagree).1
    · exact hlabel ((hmade.readersAgree_iff q hq hinvalid).mp hagree)

/-- Where the readers agree, the page that is loaded is of the origin for which the
kernel chose the process. -/
theorem ReadersAgree.sameOrigin {data : Payload} (h : ReadersAgree q data) {u v : WebUrl}
    (hkernel : cStr data.data = u.toBytes)
    (hloaded : q.toLatin1 (decodedNewUrlMsg q data.data).url = v.toBytes) : u.SameOrigin v := by
  obtain ⟨-, hlabel⟩ := (readersAgree_labels q data).mp h
  rw [hkernel, hloaded] at hlabel
  exact WebUrl.sameOrigin_of_equals hlabel

/-! ### Honest senders -/

theorem readVariants_write (h : q.Lawful) (v₁ v₂ v₃ v₄ : q.QVariant) :
    readVariants q (q.write v₁ ++ (q.write v₂ ++ (q.write v₃ ++ q.write v₄))) =
      (v₁, v₂, v₃, v₄) := by
  have hne : q.write v₁ ++ (q.write v₂ ++ (q.write v₃ ++ q.write v₄)) ≠ [] := by
    simp [h.write_ne v₁]
  have hlast := h.read_write v₄ []
  rw [List.append_nil] at hlast
  simp only [readVariants, if_neg hne, h.read_write, hlast]

/-- **Round trip.** A request with a URL whose text has no NUL arrives as it was sent. -/
theorem decoded_encodedNewUrlMsg (h : q.Lawful) {r : Request q} (hurl : q.isEmpty r.url = false)
    (hnul : (0 : UInt8) ∉ q.toLatin1 r.url) :
    decodedNewUrlMsg q (encodedNewUrlMsg q r) = r := by
  rw [encodedNewUrlMsg, decodedNewUrlMsg]
  dsimp only
  rw [drop_text hnul, readVariants_write q h]
  simp [h.toUrl_ofUrl, h.toByteArray_ofByteArray, hurl]

/-- What `encodedNewUrlMsg` makes of a request is honest. -/
theorem honestData_encodedNewUrlMsg (hq : q.Lawful) {r : Request q}
    (hurl : q.isEmpty r.url = false) (hnul : (0 : UInt8) ∉ q.toLatin1 r.url) :
    HonestData q (encodedNewUrlMsg q r) := by
  rw [← hq.toUrl_ofUrl r.url] at hurl
  refine ⟨_, _, .streamed _ hnul hurl, ?_⟩
  rw [SameLabel, hq.toUrl_ofUrl]
  exact DomainName.equals_refl _

/-! ### A dishonest sender -/

/-- The text names one site and the URL behind it another. -/
def splitData : Bytes :=
  bytes "http://a.com/" ++ 0 :: (variants.write (variants.ofUrl (bytes "http://b.com/")) ++ [])

theorem deceptiveData_splitData : DeceptiveData variants.toQt splitData :=
  .inr ⟨_, _, .streamed [] (by decide +kernel) (by decide +kernel),
    by unfold SameLabel; decide +kernel⟩

theorem split_data_disagrees : ¬ ReadersAgree variants.toQt (.ofBytes splitData) := by
  intro h
  obtain ⟨-, hlabels⟩ := (readersAgree_labels variants.toQt _).mp h
  exact absurd hlabels (by decide +kernel)

/-- A web app opens a page of its site, and another one puts two sites into its data. -/
theorem readersAgree_of_honest_pages :
    let page : Request variants.toQt :=
      { url := bytes "http://a.com/x", contentType := .invalid, referer := bytes "http://a.com/",
        body := [] }
    ReadersAgree variants.toQt (.ofBytes (encodedNewUrlMsg variants.toQt page)) ∧
      ¬ ReadersAgree variants.toQt (.ofBytes splitData) := by
  intro page
  have hq : variants.toQt.Lawful := variants_lawful.toLawful
  exact ⟨(readersAgree_of_honest _ hq rfl _).1
      (honestData_encodedNewUrlMsg _ hq (by decide +kernel) (by decide +kernel)),
    (readersAgree_of_honest _ hq rfl _).2 deceptiveData_splitData⟩

end OpBrowser
