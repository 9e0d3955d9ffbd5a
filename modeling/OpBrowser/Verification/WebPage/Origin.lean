import OpBrowser.Library.Run
import OpBrowser.Model.WebPage
import OpBrowser.Verification.NewUrlMsg.Readers

/-! # What a web app shows

The check compares a load with the URL of the view. Until the first commit that is the
initial URL, which every load through `loadUrl` has just set. -/

namespace OpBrowser.WebPage

variable {k : QtWebKit} {c : Settings} {v : View k} {label : k.QUrl}

/-- The same scheme, host and port, as the check compares them. -/
structure SameOrigin (k : QtWebKit) (a b : k.QUrl) : Prop where
  scheme : k.toLower (k.scheme a) = k.toLower (k.scheme b)
  host : k.toLower (k.host a) = k.toLower (k.host b)
  port : k.port a = k.port b

/-- The load became a `MSG_NEW_URL` message, and nothing else was sent. -/
def Requested (load : Load k) : Prop :=
  ∃ type : OpenType, type ≠ .thisWebApp ∧ ∃ body, (body = load.request.body ∨ body = []) ∧
    load.messages =
      [{ dstId := kernelId, msgType := msgNewUrl, msgValue := type.toI32
         payload := .ofBytes (WebView.encodedNewUrlMsg k.toQt { load.request with body }) }]

/-- A scheme that is dropped. -/
def Dropped (k : QtWebKit) (url : k.QUrl) : Prop := k.scheme url = "mailto" ∨ k.scheme url = "ftp"

/-- Nothing sets a link delegation policy, and without one QtWebKit lets every load through. -/
def NoDelegation (k : QtWebKit) : Prop :=
  ∀ frame request type, k.acceptNavigationRequest frame request type = true

/-- What holds of the loads of the main frame in a process of this label. -/
structure OwnOrigin (label : k.QUrl) (v : View k) : Prop where
  accepted : ∀ load ∈ v.loads, load.accepted = true → SameOrigin k load.request.url label
  refused : ∀ load ∈ v.loads, load.accepted = false →
    Requested load ∨ Dropped k load.request.url ∧ load.messages = []

/-- No message loads a URL of another origin before the first page is there. -/
def Expected (label : k.QUrl) (v : View k) : Action k → Prop
  | .setUrl content =>
      SameOrigin k (WebView.decodedNewUrlMsg k.toQt content).url label ∨ v.committed ≠ none
  | .webAppMsg type content => type = msgWebappLoadUrl →
      SameOrigin k (k.fromText (cStr content)) label ∨ v.committed ≠ none
  | _ => True

namespace SameOrigin

variable {a b d : k.QUrl}

theorem refl (a : k.QUrl) : SameOrigin k a a := ⟨rfl, rfl, rfl⟩

theorem trans (h : SameOrigin k a b) (h' : SameOrigin k b d) : SameOrigin k a d :=
  ⟨h.scheme.trans h'.scheme, h.host.trans h'.host, h.port.trans h'.port⟩

end SameOrigin

theorem sop_iff {a b : k.QUrl} : sop a b = true ↔ SameOrigin k a b := by
  simp only [sop, Bool.and_eq_true, decide_eq_true_eq]
  constructor
  · intro h
    exact ⟨h.1.1, h.1.2, h.2⟩
  · intro h
    exact ⟨⟨h.scheme, h.host⟩, h.port⟩

/-! ### The check -/

/-- The check reads the URL of the view and does not change it. -/
theorem acceptNavigationRequest_frame (frame : Frame) (request : Request k.toQt)
    (type : NavigationType) {accepted : Bool} {v' : View k}
    (h : acceptNavigationRequest c v frame request type = (accepted, v')) :
    v'.initialUrl = v.initialUrl ∧ v'.committed = v.committed ∧ v'.loads = v.loads := by
  cases frame
  all_goals
    simp only [acceptNavigationRequest, loadElsewhere, sendSysCall, sendUIMsg] at h
    split_ifs at h
    all_goals
      cases h
      exact ⟨rfl, rfl, rfl⟩

/-- `loadPolicy` has sent one message, the data of the post in it or not. -/
theorem requested_loadElsewhere {request : Request k.toQt} {accepted : Bool} {type : OpenType}
    (htype : type ≠ .thisWebApp) {body : Bytes} (hbody : body = request.body ∨ body = [])
    (w : View k) :
    Requested
      { request, accepted
        messages := (loadElsewhere w { request with body } type).sent.drop w.sent.length } :=
  ⟨type, htype, body, hbody, by simp [loadElsewhere, sendSysCall]⟩

/-- What becomes of a load of the main frame. It is let through only when it has the
origin of the view. -/
theorem acceptNavigationRequest_main (hk : NoDelegation k) (hc : c.crawler = false)
    (request : Request k.toQt) (type : NavigationType) {accepted : Bool} {v' : View k}
    (h : acceptNavigationRequest c v .main request type = (accepted, v')) :
    accepted = true ∧ SameOrigin k request.url (url v) ∨
      accepted = false ∧
        (Requested { request, accepted, messages := v'.sent.drop v.sent.length } ∨
          Dropped k request.url ∧ v'.sent = v.sent) := by
  unfold acceptNavigationRequest at h
  split at h
  next hdropped =>
    cases h
    exact Or.inr ⟨rfl, Or.inr ⟨hdropped, rfl⟩⟩
  rw [if_neg (by simp [hc])] at h
  dsimp only at h
  split at h
  next =>
    -- a click that opens a tab or a window
    cases h
    refine Or.inr ⟨rfl, Or.inl (requested_loadElsewhere ?_ (Or.inl rfl) _)⟩
    split
    · exact nofun
    · split <;> exact nofun
  next =>
    split at h
    next =>
      -- another origin
      cases h
      refine Or.inr ⟨rfl, Or.inl (requested_loadElsewhere ?_ (ite_eq_or_eq _ _ _) _)⟩
      exact nofun
    next hsop =>
      cases h
      rw [Bool.not_eq_true', Bool.not_eq_false] at hsop
      exact Or.inl ⟨hk _ _ _, sop_iff.mp hsop⟩

/-! ### The invariant -/

/-- What every step keeps in a process of this label. -/
structure Inv (label : k.QUrl) (v : View k) : Prop where
  loads : OwnOrigin label v
  initial : v.committed = none → SameOrigin k v.initialUrl label
  committed : ∀ url, v.committed = some url → k.isEmpty url = false ∧ SameOrigin k url label

theorem Inv.url (h : Inv label v) : SameOrigin k (url v) label := by
  unfold WebPage.url
  split
  next u hu =>
    obtain ⟨hne, hsame⟩ := h.committed u hu
    simpa [hne] using hsame
  next hnone => exact h.initial hnone

/-- One more load of the main frame. -/
theorem OwnOrigin.load (h : OwnOrigin label v) {load : Load k}
    (haccepted : load.accepted = true → SameOrigin k load.request.url label)
    (hrefused : load.accepted = false →
      Requested load ∨ Dropped k load.request.url ∧ load.messages = [])
    {v' : View k} (hloads : v'.loads = v.loads ++ [load]) : OwnOrigin label v' where
  accepted l hl := by
    rw [hloads] at hl
    cases List.mem_append.mp hl with
    | inl hl => exact h.accepted l hl
    | inr hl =>
        rw [List.mem_singleton.mp hl]
        exact haccepted
  refused l hl := by
    rw [hloads] at hl
    cases List.mem_append.mp hl with
    | inl hl => exact h.refused l hl
    | inr hl =>
        rw [List.mem_singleton.mp hl]
        exact hrefused

theorem Inv.navigate (h : Inv label v) (hk : NoDelegation k) (hc : c.crawler = false)
    (frame : Frame) (request : Request k.toQt) (type : NavigationType) :
    Inv label (navigate c v frame request type) := by
  cases hanswer : acceptNavigationRequest c v frame request type with
  | mk accepted v' =>
      obtain ⟨hinitial, hcommitted, hloads⟩ :=
        acceptNavigationRequest_frame frame request type hanswer
      have hkeep : Inv label v' :=
        { loads := ⟨hloads ▸ h.loads.accepted, hloads ▸ h.loads.refused⟩
          initial := by rw [hinitial, hcommitted]; exact h.initial
          committed := by rw [hcommitted]; exact h.committed }
      simp only [WebPage.navigate, hanswer]
      split
      next hmain =>
        rw [hmain] at hanswer
        refine ⟨hkeep.loads.load ?_ ?_ rfl, hkeep.initial, hkeep.committed⟩
        · intro haccepted
          cases acceptNavigationRequest_main hk hc request type hanswer with
          | inl hsame => exact hsame.2.trans h.url
          | inr hrefused => exact absurd haccepted (by simp [hrefused.1])
        · intro hrefused
          cases acceptNavigationRequest_main hk hc request type hanswer with
          | inl hsame => exact absurd hrefused (by simp [hsame.1])
          | inr hother => exact hother.2.imp_right fun hdropped =>
            ⟨hdropped.1, by simp [hdropped.2]⟩
      next => exact hkeep

/-- The initial URL counts as long as there is no other one. -/
theorem Inv.setInitialUrl (h : Inv label v) {url : k.QUrl}
    (hexpected : SameOrigin k url label ∨ v.committed ≠ none) :
    Inv label { v with initialUrl := url } where
  loads := ⟨h.loads.accepted, h.loads.refused⟩
  initial hnone := hexpected.resolve_right fun hne => hne hnone
  committed := h.committed

theorem Inv.loadUrl (h : Inv label v) (hk : NoDelegation k) (hc : c.crawler = false)
    (request : Request k.toQt) (hexpected : SameOrigin k request.url label ∨ v.committed ≠ none) :
    Inv label (loadUrl c v request) :=
  (h.setInitialUrl hexpected).navigate hk hc .main request .other

/-! ### Runs -/

/-- The first `MSG_SET_URL` sets the initial URL to the one of the label. -/
theorem inv_start (hk : NoDelegation k) (hc : c.crawler = false) (content : Bytes) :
    Inv (WebView.decodedNewUrlMsg k.toQt content).url
      (setUrl c { initialUrl := k.fromText [] } content) := by
  have hinitial (url : k.QUrl) : Inv url { initialUrl := url } :=
    { loads := ⟨by simp, by simp⟩
      initial := fun _ => SameOrigin.refl url
      committed := by simp }
  exact (hinitial _).loadUrl hk hc _ (Or.inl (SameOrigin.refl _))

theorem Inv.commit (h : Inv label v) (load : ℕ) : Inv label (commit v load) := by
  unfold WebPage.commit
  split
  next l hl =>
    split
    next hcommit =>
      refine ⟨⟨h.loads.accepted, h.loads.refused⟩, nofun, ?_⟩
      intro url hurl
      cases hurl
      exact ⟨by simpa using hcommit.2, h.loads.accepted l (List.mem_of_getElem? hl) hcommit.1⟩
    next => exact h
  next => exact h

theorem Inv.step (h : Inv label v) (hk : NoDelegation k) (hc : c.crawler = false) (a : Action k)
    (hexpected : Expected label v a) : Inv label (step c v a) := by
  cases a with
  | setUrl content => exact (h.setInitialUrl hexpected).loadUrl hk hc _ hexpected
  | webAppMsg type content =>
      simp only [WebPage.step, slotWebAppMsg]
      split
      next htype => exact h.loadUrl hk hc _ (hexpected htype)
      next => exact h
  | navigate frame request type => exact h.navigate hk hc frame request type
  | mousePressEvent buttons modifiers =>
      exact ⟨⟨h.loads.accepted, h.loads.refused⟩, h.initial, h.committed⟩
  | openLink => exact ⟨⟨h.loads.accepted, h.loads.refused⟩, h.initial, h.committed⟩
  | commit load => exact h.commit load

theorem ownOrigin_run (hk : NoDelegation k) (hc : c.crawler = false) (content : Bytes)
    (as : List (Action k))
    (h : Along (Expected (WebView.decodedNewUrlMsg k.toQt content).url) (step c)
      (setUrl c { initialUrl := k.fromText [] } content) as) :
    OwnOrigin (WebView.decodedNewUrlMsg k.toQt content).url (run c content as) :=
  (Along.invariant h (inv_start hk hc content) fun _ a hv ha => hv.step hk hc a ha).loads

/-! ### One process -/

/-- The text of Latin-1 bytes. -/
def latin1 (b : Bytes) : String := String.ofList (b.map fun c => Char.ofNat c.toNat)

/-- QtWebKit as far as plain URLs without a port go. -/
def plainWebKit : QtWebKit where
  toQt := Streams.variants.toQt
  scheme (url : Bytes) := latin1 (url.takeWhile (· ≠ byte ':'))
  host (url : Bytes) :=
    match url.dropWhile (· ≠ byte ':') with
    | 58 :: 47 :: 47 :: rest => latin1 (rest.takeWhile (· ≠ byte '/'))
    | _ => ""
  port _ := -1
  toString (url : Bytes) := latin1 url
  toStringRemovePath (url : Bytes) := latin1 url
  toLower := String.toLower
  ofString s := Streams.variants.ofString (s.toList.map fun c => c.toNat.toUInt16)
  acceptNavigationRequest _ _ _ := true

/-- After the first commit a load of another site is refused. -/
theorem ownOrigin_run_refused :
    OwnOrigin (k := plainWebKit) (WebView.decodedNewUrlMsg Streams.variants.toQt
      (bytes "http://a.com/")).url
      (run {} (bytes "http://a.com/")
        [.commit 0, .webAppMsg msgWebappLoadUrl (bytes "http://b.com/")]) := by
  apply ownOrigin_run (fun _ _ _ => rfl) rfl
  refine ⟨trivial, fun _ => Or.inr ?_, trivial⟩
  rw [← Option.isSome_iff_ne_none]
  decide +kernel

/-- A process of `http://a.com/` is asked to load this URL before its page is there. -/
def loadEarly (url : Bytes) : View plainWebKit :=
  run {} (bytes "http://a.com/") [.webAppMsg msgWebappLoadUrl url]

/-- The load of another site is compared with itself and let through, and a `mailto`
load is dropped. -/
theorem loads_not_own_origin :
    (¬ ∀ load ∈ (loadEarly (bytes "http://b.com/")).loads, load.accepted = true →
      SameOrigin plainWebKit load.request.url (bytes "http://a.com/")) ∧
    ¬ ∀ load ∈ (loadEarly (bytes "mailto:u@a.com")).loads,
      load.accepted = false → Requested load := by
  have hshown : ∃ load ∈ (loadEarly (bytes "http://b.com/")).loads, load.accepted = true ∧
      plainWebKit.host load.request.url = "b.com" :=
    ⟨_, List.getElem_mem (show 1 < (loadEarly _).loads.length by decide +kernel),
      by decide +kernel, by decide +kernel⟩
  have hdropped : ∃ load ∈ (loadEarly (bytes "mailto:u@a.com")).loads, load.accepted = false ∧
      load.messages = [] :=
    ⟨_, List.getElem_mem (show 1 < (loadEarly _).loads.length by decide +kernel),
      by decide +kernel, by decide +kernel⟩
  constructor
  · intro h
    obtain ⟨load, hmem, haccepted, hhost⟩ := hshown
    have hsame := (h load hmem haccepted).host
    rw [hhost] at hsame
    exact absurd hsame (by decide +kernel)
  · intro h
    obtain ⟨load, hmem, hrefused, hnone⟩ := hdropped
    obtain ⟨_, _, _, _, hmessages⟩ := h load hmem hrefused
    simp [hnone] at hmessages

end OpBrowser.WebPage
