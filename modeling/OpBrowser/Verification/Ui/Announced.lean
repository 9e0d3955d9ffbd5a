import OpBrowser.Verification.Texts.Numbers
import OpBrowser.Verification.Ui.Tabs

/-! # Where an announced web app ends up

The kernel announces a web app with the number of its container. The user interface either
gives it a place or closes it. -/

namespace OpBrowser.Ui

variable {env : UiEnv} {s s' : State env} {pos : Position} {view view' : WebView env}
  {window : Window env} {windows : List (Window env)} {msg : Message} {winId : I32}
  {sent : List Message} {webapp clientId containerId type : I32}

/-! ### Holding and closing a web app -/

/-- How often a tab has a web app as its client, in a frame or waiting for a frame. -/
def WebView.holds (webapp : I32) (view : WebView env) : ℕ :=
  (if view.clientId = webapp then 1 else 0) + view.iframes.countP (·.clientId = webapp) +
    view.iframeclientids.count webapp

def holders (webapp : I32) (s : State env) : ℕ := (s.views.map (WebView.holds webapp)).sum

/-- A message to the kernel that closes a web app. -/
structure Closes (webapp : I32) (m : Message) : Prop where
  dst : m.dstId = kernelId
  type : m.msgType = msgWebappClose
  client : m.payload.data = decimal webapp

/-- The web app has one place and is not closed, or it has none and is. -/
def Settled (s : State env) (msg : Message) : Prop :=
  ∃ s' sent, dispatch s msg = some (s', sent) ∧
    (holders msg.srcId s' = 1 ∧ (∀ m ∈ sent, ¬ Closes msg.srcId m) ∨
      holders msg.srcId s' = 0 ∧ ∃ m ∈ sent, Closes msg.srcId m)

/-- The announcement does nothing, or closes the web app and then embeds it. No tab is the
container and the current tab is taken, and either the web app is to replace the one in its
tab, or it is to go to a frame but there are none, or the frame is there but not the first. -/
structure Mishandled (s : State env) (current : WebView env) (msg : Message) : Prop where
  noTab : ∀ view ∈ s.views, view.containerId ≠ atoi msg.stringData
  taken : current.clientId ≠ 0
  container : atoi msg.stringData = 1 ∨ 5 < atoi msg.stringData ∧
    (current.iframes = [] ∨ ∃ frame frames, current.iframes = frame :: frames ∧
      frame.containerId ≠ atoi msg.stringData ∧
      ∃ frame' ∈ frames, frame'.containerId = atoi msg.stringData)

/-! ### Messages that close -/

theorem closes_clientCall :
    Closes webapp (clientCall containerId type clientId) ↔ type = msgWebappClose ∧
      clientId = webapp := by
  constructor
  · intro h
    exact ⟨h.type, decimal_injective h.client⟩
  · rintro ⟨rfl, rfl⟩
    exact ⟨rfl, rfl, rfl⟩

theorem not_closes_update : ¬ Closes webapp
    (clientCall containerId msgUpdataContainer clientId) := by
  rw [closes_clientCall]
  exact fun h => absurd h.1 (by decide)

theorem not_closes_other (h : clientId ≠ webapp) :
    ¬ Closes webapp (clientCall containerId type clientId) := by
  rw [closes_clientCall]
  exact fun hcloses => h hcloses.2

/-! ### Places -/

theorem holds_eq_zero : view.holds webapp = 0 ↔ view.clientId ≠ webapp ∧
    (∀ frame ∈ view.iframes, frame.clientId ≠ webapp) ∧ webapp ∉ view.iframeclientids := by
  simp [WebView.holds, and_assoc, List.countP_eq_zero, List.count_eq_zero]

theorem holders_eq_zero : holders webapp s = 0 ↔ ∀ view ∈ s.views, view.holds webapp = 0 := by
  rw [holders, List.sum_eq_zero_iff_forall_eq_nat]
  exact List.forall_mem_map

/-- A web app that nobody holds has the places that it gets in the tab that changes. -/
theorem holders_of_split {pre post : List (WebView env)} (h : s.views = pre ++ view :: post)
    (h' : s'.views = pre ++ view' :: post) (hnone : holders webapp s = 0) :
    holders webapp s' = view'.holds webapp := by
  rw [holders, h, List.map_append, List.map_cons, List.sum_append, List.sum_cons] at hnone
  rw [holders, h', List.map_append, List.map_cons, List.sum_append, List.sum_cons]
  omega

theorem holders_of_new {pre post : List (WebView env)} (h : s.views = pre ++ post)
    (h' : s'.views = pre ++ view' :: post) (hnone : holders webapp s = 0) :
    holders webapp s' = view'.holds webapp := by
  rw [holders, h, List.map_append, List.sum_append] at hnone
  rw [holders, h', List.map_append, List.map_cons, List.sum_append, List.sum_cons]
  omega

/-- A tab that embeds a new client has it once, and closes nothing but what it held. -/
theorem handleEmbed_placed (hsrc : msg.srcId ≠ 0) (hvalue : msg.msgValue ≠ 0)
    (hnone : view.holds msg.srcId = 0) :
    (view.handleEmbed msg).1.holds msg.srcId = 1 ∧
      ∀ m ∈ (view.handleEmbed msg).2, ¬ Closes msg.srcId m := by
  obtain ⟨hclient, hframes, hpending⟩ := holds_eq_zero.1 hnone
  simp only [WebView.handleEmbed, hsrc, hvalue, or_self, if_false]
  split
  · refine ⟨by simp [WebView.closeFrames, WebView.holds], fun m hm => ?_⟩
    simp only [WebView.closeFrames, WebView.closePending, FrameView.destroyed, List.mem_cons,
      List.mem_append, List.mem_flatMap] at hm
    obtain rfl | rfl | ⟨unembedded, hmem, hm⟩ | ⟨frame, hmem, hm⟩ := hm
    · exact not_closes_update
    · exact not_closes_other hclient
    · have hne : unembedded ≠ msg.srcId := fun heq => hpending (heq ▸ hmem)
      simp only [List.not_mem_nil, or_false] at hm
      obtain rfl | rfl := hm
      · exact not_closes_update
      · exact not_closes_other hne
    · split at hm
      · rw [List.mem_singleton.1 hm]
        exact not_closes_other (hframes frame hmem)
      · cases hm
  · refine ⟨?_, fun m hm => ?_⟩
    · have hcount : view.iframes.countP (·.clientId = msg.srcId) = 0 := by
        simpa [List.countP_eq_zero] using hframes
      simp [WebView.holds, hcount, List.count_eq_zero.2 hpending]
    · rw [List.mem_singleton.1 hm]
      exact not_closes_update

/-! ### Frames -/

/-- A web app that goes to the first frame is embedded there and not closed. -/
theorem embedIn_first (ownId clientWId : I32) {frame : FrameView} {frames : List FrameView}
    (h : frame.containerId = containerId) (hframe : frame.clientId ≠ clientId)
    (hframes : ∀ frame ∈ frames, frame.clientId ≠ clientId) :
    (WebView.embedIn ownId clientId clientWId containerId (frame :: frames)).1.countP
        (·.clientId = clientId) = 1 ∧
      ∀ m ∈ (WebView.embedIn ownId clientId clientWId containerId (frame :: frames)).2,
        ¬ Closes clientId m := by
  rw [WebView.embedIn, if_pos h]
  constructor
  · simpa [FrameView.handleEmbed, List.countP_eq_zero] using hframes
  · intro m hm
    simp only [FrameView.handleEmbed, List.mem_cons] at hm
    obtain rfl | hm := hm
    · exact not_closes_update
    · split at hm
      · rw [List.mem_singleton.1 hm]
        exact not_closes_other hframe
      · cases hm

/-- Further down it is closed, and embedded as well if its frame is there. -/
theorem embedIn_later (ownId clientId clientWId : I32) {frame : FrameView}
    (frames : List FrameView) (h : frame.containerId ≠ containerId) :
    ∃ m ∈ (WebView.embedIn ownId clientId clientWId containerId (frame :: frames)).2,
      Closes clientId m := by
  rw [WebView.embedIn, if_neg h]
  exact ⟨clientCall ownId msgWebappClose clientId, by simp, closes_clientCall.2 ⟨rfl, rfl⟩⟩

theorem countP_embedIn {ownId clientWId : I32} {frames : List FrameView}
    (h : ∀ frame ∈ frames, frame.clientId ≠ clientId) :
    (WebView.embedIn ownId clientId clientWId containerId frames).1.countP
        (·.clientId = clientId) =
      if ∃ frame ∈ frames, frame.containerId = containerId then 1 else 0 := by
  induction frames with
  | nil => rfl
  | cons frame frames ih =>
      have hrest := fun frame' hmem => h frame' (List.mem_cons_of_mem frame hmem)
      have hframe := h frame List.mem_cons_self
      rw [WebView.embedIn]
      split
      · rename_i hcontainer
        rw [if_pos ⟨frame, List.mem_cons_self, hcontainer⟩]
        simpa [FrameView.handleEmbed, List.countP_eq_zero] using hrest
      · rename_i hcontainer
        rw [List.countP_cons_of_neg (by simpa using hframe), ih hrest]
        simp [hcontainer]

/-- In the frames of a taken tab a web app is settled unless there are none, or its frame
is not the first. -/
theorem embedFrame_placed (winId : I32) (hvalue : 5 < msg.msgValue)
    (hnone : view.holds msg.srcId = 0) :
    ∃ view' sent, view.embedFrame winId msg = some (view', sent) ∧
      ((view'.holds msg.srcId = 1 ∧ (∀ m ∈ sent, ¬ Closes msg.srcId m) ∨
        view'.holds msg.srcId = 0 ∧ ∃ m ∈ sent, Closes msg.srcId m) ↔
      ¬ (view.iframes = [] ∨ ∃ frame frames, view.iframes = frame :: frames ∧
        frame.containerId ≠ atoi msg.stringData ∧
        ∃ frame' ∈ frames, frame'.containerId = atoi msg.stringData)) := by
  obtain ⟨hclient, hframes, hpending⟩ := holds_eq_zero.1 hnone
  have hlarge : (5 : ℤ) < msg.msgValue := hvalue
  have h₀ : msg.msgValue ≠ 0 := fun h => absurd (h ▸ hlarge) (by decide)
  have h₁ : msg.msgValue ≠ 1 := fun h => absurd (h ▸ hlarge) (by decide)
  refine ⟨_, _, embedFrame_embed h₀ h₁, ?_⟩
  have hholds : ∀ frames, ({ view with iframes := frames } : WebView env).holds msg.srcId =
      frames.countP (·.clientId = msg.srcId) := by
    intro frames
    simp [WebView.holds, hclient, List.count_eq_zero.2 hpending]
  rw [hholds]
  cases hview : view.iframes with
  | nil => simp [WebView.embedIn]
  | cons frame frames =>
      rw [hview] at hframes
      by_cases hfirst : frame.containerId = atoi msg.stringData
      · obtain ⟨hone, hopen⟩ := embedIn_first view.containerId msg.msgValue hfirst
          (hframes frame List.mem_cons_self)
          fun frame' hmem => hframes frame' (List.mem_cons_of_mem frame hmem)
        refine iff_of_true (Or.inl ⟨hone, hopen⟩) ?_
        simp [hfirst]
      · have hclosed := embedIn_later view.containerId msg.srcId msg.msgValue frames hfirst
        rw [countP_embedIn hframes]
        by_cases hlater : ∃ frame' ∈ frames, frame'.containerId = atoi msg.stringData
        · have hsome : ∃ frame' ∈ frame :: frames, frame'.containerId = atoi msg.stringData := by
            obtain ⟨frame', hmem, hcontainer⟩ := hlater
            exact ⟨frame', List.mem_cons_of_mem frame hmem, hcontainer⟩
          rw [if_pos hsome]
          refine iff_of_false ?_ (not_not.2 (Or.inr ⟨frame, frames, rfl, hfirst, hlater⟩))
          rintro (⟨-, hopen⟩ | ⟨hzero, -⟩)
          · obtain ⟨m, hm, hcloses⟩ := hclosed
            exact hopen m hm hcloses
          · cases hzero
        · have hnosome : ¬ ∃ frame' ∈ frame :: frames,
            frame'.containerId = atoi msg.stringData := by
            rintro ⟨frame', hmem, hcontainer⟩
            cases hmem with
            | head => exact hfirst hcontainer
            | tail _ hmem => exact hlater ⟨frame', hmem, hcontainer⟩
          rw [if_neg hnosome]
          refine iff_of_true (Or.inr ⟨rfl, hclosed⟩) ?_
          rintro (hnil | ⟨frame', frames', heq, -, hlater'⟩)
          · cases hnil
          · cases heq
            exact hlater hlater'

/-! ### Announcements -/

/-- A new tab holds nothing. -/
theorem holds_new (env : UiEnv) (containerId : I32) (h : webapp ≠ 0) :
    ({ containerId := containerId } : WebView env).holds webapp = 0 := by
  simp [WebView.holds, Ne.symm h]

theorem settled_onView (hview : s.viewAt pos = some view) (hsrc : msg.srcId ≠ 0)
    (hvalue : msg.msgValue ≠ 0) (hnone : holders msg.srcId s = 0)
    (hdispatch : dispatch s msg = some (s.onView pos (WebView.handleEmbed msg))) :
    Settled s msg := by
  obtain ⟨s', pre, post, hs', hviews, hviews'⟩ := onView_split hview (WebView.handleEmbed msg)
  obtain ⟨hone, hopen⟩ :=
    handleEmbed_placed hsrc hvalue (holders_eq_zero.1 hnone view (mem_views hview))
  rw [hs'] at hdispatch
  refine ⟨s', _, hdispatch, Or.inl ⟨?_, hopen⟩⟩
  rw [holders_of_split hviews hviews' hnone]
  exact hone

theorem settled_new (pre post : List (WebView env)) (hviews : s.views = pre ++ post)
    (hviews' : s'.views =
      pre ++ (WebView.handleEmbed msg { containerId := containerId }).1 :: post)
    (hsrc : msg.srcId ≠ 0) (hvalue : msg.msgValue ≠ 0) (hnone : holders msg.srcId s = 0)
    (hdispatch : dispatch s msg =
      some (s', (WebView.handleEmbed msg ({ containerId := containerId } : WebView env)).2)) :
    Settled s msg := by
  obtain ⟨hone, hopen⟩ := handleEmbed_placed hsrc hvalue
    (holds_new env containerId hsrc)
  refine ⟨_, _, hdispatch, Or.inl ⟨?_, hopen⟩⟩
  rw [holders_of_new hviews hviews' hnone]
  exact hone

theorem settled_embedInTab (hwindows : s.windows = window :: windows) {makeCurrent : Bool}
    (hsrc : msg.srcId ≠ 0) (hvalue : msg.msgValue ≠ 0) (hnone : holders msg.srcId s = 0)
    (hdispatch : dispatch s msg = some (s.embedInTab makeCurrent msg)) : Settled s msg := by
  have hembed : s.embedInTab makeCurrent msg = ((s.embedInTab makeCurrent msg).1,
      (WebView.handleEmbed msg ({ containerId := s.nextWinId } : WebView env)).2) := by
    rw [State.embedInTab, hwindows]
  rw [hembed] at hdispatch
  refine settled_new window.tabs (windows.flatMap Window.tabs) ?_ ?_ hsrc hvalue hnone hdispatch
  · rw [State.views, hwindows]
    rfl
  · simp [State.embedInTab, hwindows, State.views, Window.makeNewTab]

theorem settled_embedInWindow (hsrc : msg.srcId ≠ 0) (hvalue : msg.msgValue ≠ 0)
    (hnone : holders msg.srcId s = 0)
    (hdispatch : dispatch s msg = some (s.embedInWindow msg)) : Settled s msg := by
  have hembed : s.embedInWindow msg = ((s.embedInWindow msg).1,
      (WebView.handleEmbed msg ({ containerId := s.nextWinId } : WebView env)).2) := rfl
  rw [hembed] at hdispatch
  refine settled_new [] s.views rfl ?_ hsrc hvalue hnone hdispatch
  simp [State.embedInWindow, State.views]

theorem settled_prepFrame (hview : s.viewAt pos = some view) (hsrc : msg.srcId ≠ 0)
    (hvalue : msg.msgValue ≠ 0) (hnone : holders msg.srcId s = 0)
    (hdispatch : dispatch s msg = some (s.onView pos (WebView.prepFrame msg))) :
    Settled s msg := by
  obtain ⟨s', pre, post, hs', hviews, hviews'⟩ := onView_split hview (WebView.prepFrame msg)
  obtain ⟨hclient, hframes, hpending⟩ :=
    holds_eq_zero.1 (holders_eq_zero.1 hnone view (mem_views hview))
  have hcount : view.iframes.countP (·.clientId = msg.srcId) = 0 := by
    simpa [List.countP_eq_zero] using hframes
  rw [hs'] at hdispatch
  refine ⟨s', _, hdispatch, Or.inl ⟨?_, ?_⟩⟩
  · rw [holders_of_split hviews hviews' hnone]
    simp [WebView.prepFrame, hsrc, hvalue, WebView.holds, hclient, hcount,
      List.count_eq_zero.2 hpending]
  · simp [WebView.prepFrame, hsrc, hvalue]

theorem settled_embedFrame_iff (hwindows : s.windows = window :: windows)
    (hvalue : 5 < msg.msgValue) (hnone : holders msg.srcId s = 0)
    (hdispatch : dispatch s msg = s.embedFrame (0, window.current) msg) :
    Settled s msg ↔ ¬ (window.currentTab.iframes = [] ∨
      ∃ frame frames, window.currentTab.iframes = frame :: frames ∧
        frame.containerId ≠ atoi msg.stringData ∧
        ∃ frame' ∈ frames, frame'.containerId = atoi msg.stringData) := by
  obtain ⟨view', sent, hembed, hiff⟩ := embedFrame_placed s.nextWinId hvalue
    (holders_eq_zero.1 hnone _ (currentTab_mem hwindows))
  obtain ⟨s', pre, post, hs', hviews, hviews'⟩ :=
    embedFrame_split (viewAt_current hwindows) hembed
  rw [← hiff, Settled, hdispatch, hs', ← holders_of_split hviews hviews' hnone]
  simp

/-- **No announced web app is lost or closed by mistake**, unless its announcement is one of
those that are mishandled. -/
theorem settled_iff (hwindows : s.windows = window :: windows)
    (htype : msg.msgType = msgNewWebapp) (hsrc : webappFirstId ≤ msg.srcId)
    (hvalue : 5 < msg.msgValue) (hnone : holders msg.srcId s = 0)
    (hcontainer : 1 ≤ atoi msg.stringData) :
    Settled s msg ↔ ¬ Mishandled s window.currentTab msg := by
  have hdispatch := dispatch_newWebapp hwindows htype
  have happ : msg.srcId ≠ 0 := fun h => absurd (h ▸ hsrc) (by decide)
  have hwin : msg.msgValue ≠ 0 := fun h => absurd (h ▸ hvalue) (by decide)
  cases hdest : destView msg.srcId (atoi msg.stringData) s.windows with
  | some pos =>
      rw [hdest] at hdispatch
      obtain ⟨view, hview, hkey⟩ := destView_eq_some hdest
      have hfree := (holds_eq_zero.1 (holders_eq_zero.1 hnone view (mem_views hview))).1
      refine iff_of_true (settled_onView hview happ hwin hnone hdispatch) fun hbad => ?_
      exact hkey.elim hfree (hbad.noTab view (mem_views hview))
  | none =>
      have hnoTab := fun view hview => (destView_eq_none hdest view hview).2
      rw [hdest, Option.elim_none] at hdispatch
      by_cases htaken : window.currentTab.clientId = 0
      · rw [if_pos htaken] at hdispatch
        refine iff_of_true (settled_onView (viewAt_current hwindows) happ hwin hnone hdispatch)
          fun hbad => hbad.taken htaken
      rw [if_neg htaken] at hdispatch
      have hbad : Mishandled s window.currentTab msg ↔ atoi msg.stringData = 1 ∨
          5 < atoi msg.stringData ∧ (window.currentTab.iframes = [] ∨
            ∃ frame frames, window.currentTab.iframes = frame :: frames ∧
              frame.containerId ≠ atoi msg.stringData ∧
              ∃ frame' ∈ frames, frame'.containerId = atoi msg.stringData) :=
        ⟨fun h => h.container, fun h => ⟨hnoTab, htaken, h⟩⟩
      rw [hbad]
      split at hdispatch
      · refine iff_of_true (settled_embedInTab hwindows happ hwin hnone hdispatch) ?_
        omega
      split at hdispatch
      · refine iff_of_true (settled_embedInTab hwindows happ hwin hnone hdispatch) ?_
        omega
      split at hdispatch
      · refine iff_of_true (settled_embedInWindow happ hwin hnone hdispatch) ?_
        omega
      split at hdispatch
      · refine iff_of_true
          (settled_prepFrame (viewAt_current hwindows) happ hwin hnone hdispatch) ?_
        omega
      split at hdispatch
      · rename_i hframe
        rw [settled_embedFrame_iff hwindows hvalue hnone hdispatch]
        have hone : atoi msg.stringData ≠ 1 := by omega
        have hlarge : 5 < atoi msg.stringData := hframe
        simp [hone, hlarge]
      · have hone : atoi msg.stringData = 1 := by omega
        refine iff_of_false ?_ (not_not.2 (Or.inl hone))
        rintro ⟨s', sent, h, hsettled⟩
        rw [hdispatch] at h
        cases h
        obtain ⟨hheld, -⟩ | ⟨-, m, hm, -⟩ := hsettled
        · omega
        · cases hm

/-- A window whose only tab has two frames. -/
def framed : Window plainEnv where
  tabs :=
    [{ containerId := 100
       clientId := 1024
       iframes :=
        [{ containerId := 200, clientId := 1025, geometry := ⟨0, 0, 10, 10⟩ },
          { containerId := 201, clientId := 1026, geometry := ⟨0, 10, 10, 10⟩ }] }]
  current := 0
  valid := by decide

def framedTab : State plainEnv where
  windows := [framed]
  nextWinId := 300

/-- A new web app is to replace the one in the second frame. -/
def replacement : Message where
  srcId := 1027
  dstId := uiId
  msgType := msgNewWebapp
  msgValue := 400
  payload := .ofBytes (bytes "201")

theorem settled_iff_framed :
    Settled framedTab replacement ↔ ¬ Mishandled framedTab framed.currentTab replacement :=
  settled_iff (rfl : framedTab.windows = [framed]) rfl (by decide) (by decide)
    (by decide) (by decide)

/-- It is closed at the first frame and embedded in the second one. -/
theorem replacement_not_settled : ¬ Settled framedTab replacement := by
  have hdispatch : dispatch framedTab replacement = framedTab.embedFrame (0, 0) replacement := rfl
  have hwindows : framedTab.windows = [framed] := rfl
  rw [settled_embedFrame_iff hwindows (by decide) (by decide) hdispatch, not_not]
  exact Or.inr ⟨_, _, rfl, by decide, _, List.mem_cons_self, by decide⟩

end OpBrowser.Ui
