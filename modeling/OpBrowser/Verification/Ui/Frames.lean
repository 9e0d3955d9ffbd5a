import OpBrowser.Verification.Ui.FrameEvents
import Mathlib.Data.List.Nodup

/-! # Which web app an isolated frame shows

The tab keeps the web apps in the order in which they are announced, and a layout takes the
first one. -/

namespace OpBrowser.Ui

/-- The frames in the order of their web apps. -/
def announced (es : List FrameEvent) : List SubFrame := es.filterMap FrameEvent.announced?

/-- The frames in the order of their layouts, each as often as it is laid out. -/
def layouts (es : List FrameEvent) : List SubFrame := es.filterMap FrameEvent.laidOut?

/-- The story of the frames of a page, of which some are named and announced already. Web apps
are announced in the order of the names, and a frame is laid out once its web app is there. -/
inductive Story : List SubFrame → List SubFrame → List FrameEvent → Prop
  | nil {named known : List SubFrame} : Story named known []
  | name {named known : List SubFrame} {f : SubFrame} {es : List FrameEvent}
      (distinct : ∀ f' ∈ named, f'.name ≠ f.name) (commaFree : QString.comma ∉ f.name) :
      Story (named ++ [f]) known es → Story named known (.name f :: es)
  | announce {named known : List SubFrame} {f : SubFrame} {es : List FrameEvent}
      (next : known ++ [f] <+: named) :
      Story named (known ++ [f]) es → Story named known (.announce f :: es)
  | layout {named known : List SubFrame} {f : SubFrame} {geometry : Geometry}
      {es : List FrameEvent} (present : f ∈ known) (isInt : geometry.IsInt) :
      Story named known es → Story named known (.layout f geometry :: es)

variable {env : UiEnv} {s s' : State env} {pos : Position} {view view' : WebView env}
  {window : Window env} {windows : List (Window env)} {page : I32} {f : SubFrame}
  {geometry : Geometry} {e : FrameEvent} {es : List FrameEvent}
  {fs named known later waiting : List SubFrame} {stale : List I32}

/-- The web apps are new: their ids are their own, and no tab knows them. -/
structure NewWebapps (s : State env) (fs : List SubFrame) : Prop where
  distinct : (fs.map SubFrame.clientId).Nodup
  created : ∀ f ∈ fs, f.clientId ≠ 0 ∧ f.clientWId ≠ 0
  unheld : ∀ f ∈ fs, holders f.clientId s = 0

/-- Every message is handled, without a list that is read when it is empty, and every layout
embeds the web app of its own frame. -/
def ShowsOwn (page : I32) (pos : Position) (s : State env) : List FrameEvent → Prop
  | [] => True
  | e :: es => ∃ s' sent, dispatch s (e.message page) = some (s', sent) ∧ e.Shown pos s s' ∧
      ShowsOwn page pos s' es

@[simp] theorem announced_name : announced (.name f :: es) = announced es := rfl

@[simp] theorem announced_announce : announced (.announce f :: es) = f :: announced es := rfl

@[simp] theorem announced_layout : announced (.layout f geometry :: es) = announced es := rfl

@[simp] theorem layouts_name : layouts (.name f :: es) = layouts es := rfl

@[simp] theorem layouts_announce : layouts (.announce f :: es) = layouts es := rfl

@[simp] theorem layouts_layout : layouts (.layout f geometry :: es) = f :: layouts es := rfl

/-- Without layouts there is nothing to show, and every message is handled. -/
theorem showsOwn_of_layouts_nil (h : s.windows = window :: windows) (hes : layouts es = []) :
    ShowsOwn page pos s es := by
  induction es generalizing s window windows with
  | nil => trivial
  | cons e es ih =>
      have he : e.laidOut? = none := by
        rw [layouts, List.filterMap_eq_nil_iff] at hes
        exact hes e List.mem_cons_self
      obtain ⟨s', sent, window', windows', hdispatch, hwindows', -⟩ :=
        dispatch_not_layout h he page
      refine ⟨s', sent, hdispatch, ?_, ih hwindows' ?_⟩
      · cases e with
        | layout f geometry => cases he
        | _ => trivial
      · rwa [layouts, List.filterMap_cons_none he] at hes

theorem not_showsOwn_behind (h : s.windows = window :: windows) (hpos : pos ≠ (0, window.current))
    (hes : layouts es ≠ []) : ¬ ShowsOwn page pos s es := by
  induction es generalizing s window windows with
  | nil => exact absurd rfl hes
  | cons e es ih =>
      rintro ⟨s', sent, hdispatch, hshown, hrest⟩
      cases he : e.laidOut? with
      | none =>
          obtain ⟨s₁, sent₁, window', windows', hdispatch₁, hwindows', hcurrent⟩ :=
            dispatch_not_layout h he page
          rw [hdispatch₁] at hdispatch
          cases hdispatch
          rw [layouts, List.filterMap_cons_none he] at hes
          exact ih hwindows' (by rwa [hcurrent]) hes hrest
      | some f =>
          cases e with
          | layout f' geometry => exact not_shown_behind h hpos hdispatch hshown
          | _ => cases he

/-! ### The current tab -/

theorem showsOwn_cons {sent : List Message}
    (hdispatch : dispatch s (e.message page) = some (s', sent)) :
    ShowsOwn page pos s (e :: es) ↔ e.Shown pos s s' ∧ ShowsOwn page pos s' es := by
  rw [ShowsOwn, hdispatch]
  simp

theorem not_showsOwn_cons (hdispatch : dispatch s (e.message page) = none) :
    ¬ ShowsOwn page pos s (e :: es) := by
  rintro ⟨s', sent, h, -⟩
  rw [hdispatch] at h
  cases h

/-- The tab knows these frames by name. -/
structure Names (named known : List SubFrame) (view : WebView env) : Prop where
  known : ∀ f ∈ known, f ∈ named
  commaFree : ∀ f ∈ named, QString.comma ∉ f.name
  held : ∀ f ∈ named, QString.fromAscii f.name.toLatin1 ∈ view.iframenames

theorem Names.name (h : Names named known view) (hcomma : QString.comma ∉ f.name) :
    Names (named ++ [f]) known (view.withName f) where
  known f' hf' := List.mem_append_left _ (h.known f' hf')
  commaFree f' hf' := by
    obtain hf' | hf' := List.mem_append.1 hf'
    · exact h.commaFree f' hf'
    · rwa [List.mem_singleton.1 hf']
  held f' hf' := by
    obtain hf' | hf' := List.mem_append.1 hf'
    · exact List.mem_append_left _ (h.held f' hf')
    · rw [List.mem_singleton.1 hf']
      exact List.mem_append_right _ List.mem_cons_self

theorem Names.announce (h : Names named known view) (hnext : known ++ [f] <+: named) :
    Names named (known ++ [f]) (view.withWebapp f) where
  known _ hf' := hnext.subset hf'
  commaFree := h.commaFree
  held := h.held

/-- A tab holds ids of an earlier page and then those of the known frames that wait. Those of
the frames to come are not among them. -/
structure Queue (known later : List SubFrame) (stale : List I32) (waiting : List SubFrame)
    (view : WebView env) : Prop where
  distinct : ((known ++ later).map SubFrame.clientId).Nodup
  fresh : ∀ f ∈ known ++ later, f.clientId ∉ stale
  announced : ∀ f ∈ waiting, f ∈ known
  ids : view.iframeclientids = stale ++ waiting.map SubFrame.clientId
  wids : waiting.length ≤ view.iframewids.length

theorem Queue.announce (h : Queue known (f :: later) stale waiting view) :
    Queue (known ++ [f]) later stale (waiting ++ [f]) (view.withWebapp f) where
  distinct := by
    have hdistinct := h.distinct
    rwa [List.append_cons] at hdistinct
  fresh := by
    have hfresh := h.fresh
    rwa [List.append_cons] at hfresh
  announced f' hf' := by
    obtain hf' | hf' := List.mem_append.1 hf'
    · exact List.mem_append_left _ (h.announced f' hf')
    · exact List.mem_append_right _ hf'
  ids := by
    rw [WebView.withWebapp, h.ids, List.append_assoc, List.map_append]
    rfl
  wids := by
    have hwids := h.wids
    simpa [WebView.withWebapp] using hwids

theorem Queue.inj (h : Queue known later stale waiting view) {f' : SubFrame} (hf : f ∈ known)
    (hf' : f' ∈ known) (heq : f.clientId = f'.clientId) : f = f' := by
  have hdistinct := h.distinct.sublist ((List.sublist_append_left known later).map _)
  exact List.inj_on_of_nodup_map hdistinct hf hf' heq

theorem Queue.notMem_later (h : Queue known later stale waiting view) (hf : f ∈ known) :
    f ∉ later := by
  have hdistinct := h.distinct
  rw [List.map_append] at hdistinct
  intro hlater
  exact List.disjoint_of_nodup_append hdistinct (List.mem_map_of_mem hf)
      (List.mem_map_of_mem hlater)

/-- Where one of the lists is empty, no web app waits. -/
theorem Queue.waiting_eq_nil (h : Queue known later [] waiting view)
    (hempty : view.iframeclientids = [] ∨ view.iframewids = []) : waiting = [] := by
  obtain hempty | hempty := hempty
  · have hids := h.ids
    rwa [hempty, List.nil_append, eq_comm, List.map_eq_nil_iff] at hids
  · have hwids := h.wids
    rwa [hempty, List.length_nil, Nat.le_zero, List.length_eq_zero_iff] at hwids

/-- The first web app goes to a frame. -/
theorem Queue.layout {p : SubFrame} {frame : FrameView} {clientId wid : I32}
    {clientIds wids : List I32} (h : Queue known later [] (p :: waiting) view)
    (hids : view.iframeclientids = clientId :: clientIds) (hwids : view.iframewids = wid :: wids) :
    Queue known later [] waiting (view.withFrame frame clientIds wids) where
  distinct := h.distinct
  fresh := h.fresh
  announced f hf := h.announced f (List.mem_cons_of_mem p hf)
  ids := List.tail_eq_of_cons_eq (hids.symm.trans h.ids)
  wids := by
    have hlength := h.wids
    rw [hwids, List.length_cons, List.length_cons] at hlength
    exact Nat.le_of_succ_le_succ hlength

/-- The frames are laid out in the order in which their web apps wait, behind none of an earlier
page, and with the window ids in front. -/
def Served (stale : List I32) (waiting : List SubFrame) (wids : List I32) (fs : List SubFrame) :
    Prop :=
  fs = [] ∨ stale = [] ∧ fs <+: waiting ∧ fs.map SubFrame.clientWId <+: wids

theorem served_cons {p : SubFrame} {wid : I32} {wids : List I32} :
    Served [] (p :: waiting) (wid :: wids) (f :: fs) ↔
      (f = p ∧ wid = f.clientWId) ∧ Served [] waiting wids fs := by
  simp only [Served, List.map_cons, List.cons_prefix_cons, reduceCtorEq, false_or, true_and]
  constructor
  · rintro ⟨⟨rfl, hfs⟩, rfl, hwids⟩
    exact ⟨⟨rfl, rfl⟩, Or.inr ⟨hfs, hwids⟩⟩
  · rintro ⟨⟨rfl, rfl⟩, rfl | ⟨hfs, hwids⟩⟩
    · simp
    · exact ⟨⟨rfl, hfs⟩, rfl, hwids⟩

theorem not_served_stale {i : I32} {wids : List I32} :
    ¬ Served (i :: stale) waiting wids (f :: fs) := by
  simp [Served]

theorem not_served_absent {wids : List I32} (h : f ∉ waiting) :
    ¬ Served stale waiting wids (f :: fs) := by
  rintro (hnil | ⟨-, hfirst, -⟩)
  · cases hnil
  · exact h (hfirst.subset List.mem_cons_self)

/-- **What a current tab shows.** A layout takes the first ids, so that all layouts are right
exactly if no id of an earlier page is left and the frames are laid out in their order. -/
theorem showsOwn_front_iff (henv : env.Lawful) (hstory : Story named known es)
    (h : AtFront fs s pos view) (hnames : Names named known view)
    (hfs : ∀ f ∈ announced es, f ∈ fs) (hqueue : Queue known (announced es) stale waiting view) :
    ShowsOwn page pos s es ↔ Served stale (waiting ++ announced es)
      (view.iframewids ++ (announced es).map SubFrame.clientWId) (layouts es) := by
  induction hstory generalizing s view waiting stale with
  | nil => simp [ShowsOwn, layouts, Served]
  | @name named known f es distinct commaFree story ih =>
      obtain ⟨s', sent, hdispatch, h'⟩ := h.name henv f page
      have hqueue' : Queue known (announced es) stale waiting (view.withName f) :=
        ⟨hqueue.distinct, hqueue.fresh, hqueue.announced, hqueue.ids, hqueue.wids⟩
      rw [showsOwn_cons hdispatch, ih h' (hnames.name commaFree) hfs hqueue']
      exact ⟨fun hs => hs.2, fun hs => ⟨trivial, hs⟩⟩
  | @announce named known f es next story ih =>
      obtain ⟨s', sent, hdispatch, h'⟩ := h.announce (hfs f List.mem_cons_self) page
      rw [showsOwn_cons hdispatch, ih h' (hnames.announce next)
        (fun f' hf' => hfs f' (List.mem_cons_of_mem _ hf')) hqueue.announce]
      simp [WebView.withWebapp, FrameEvent.Shown]
  | @layout named known f geometry es present isInt story ih =>
      have hnamed := hnames.known f present
      have hqueue : Queue known (announced es) stale waiting view := hqueue
      obtain ⟨hnone, hempty⟩ | ⟨s', sent, winId, clientId, clientIds, wid, wids, hclients, hwindows,
          hdispatch, h'⟩ := AtFront.layout henv (hnames.commaFree f hnamed) (hnames.held f hnamed) h
            isInt page
      · refine iff_of_false (not_showsOwn_cons hnone) ?_
        cases stale with
        | cons i stale => exact not_served_stale
        | nil =>
            rw [hqueue.waiting_eq_nil hempty]
            exact not_served_absent (hqueue.notMem_later present)
      · rw [showsOwn_cons hdispatch, shown_layout h.shown h'.shown]
        have hids := hclients.symm.trans hqueue.ids
        cases stale with
        | cons i stale =>
            refine iff_of_false ?_ not_served_stale
            rintro ⟨⟨hclient, -⟩, -⟩
            have hmem : f.clientId ∈ i :: stale := by
              rw [← hclient, List.head_eq_of_cons_eq hids]
              exact List.mem_cons_self
            exact hqueue.fresh f (List.mem_append_left _ present) hmem
        | nil =>
            cases waiting with
            | nil => cases hids
            | cons p waiting =>
                have hsame : clientId = f.clientId ↔ f = p := by
                  have hp : clientId = p.clientId := List.head_eq_of_cons_eq hids
                  have hknown := hqueue.announced p List.mem_cons_self
                  rw [hp]
                  exact ⟨fun heq => hqueue.inj present hknown heq.symm, fun heq => by rw [heq]⟩
                rw [hsame, ih h' ⟨hnames.known, hnames.commaFree, hnames.held⟩ hfs
                  (hqueue.layout hclients hwindows), hwindows]
                exact served_cons.symm

/-- From the start of a story all ids in the tab are of an earlier page. -/
theorem showsOwn_start_iff (henv : env.Lawful) (hstory : Story [] [] es)
    (h : AtFront (announced es) s pos view) (hnew : NewWebapps s (announced es)) :
    ShowsOwn page pos s es ↔ layouts es = [] ∨
      view.iframeclientids = [] ∧ layouts es <+: announced es ∧
        (layouts es).map SubFrame.clientWId <+:
          view.iframewids ++ (announced es).map SubFrame.clientWId := by
  have hqueue : Queue [] (announced es) view.iframeclientids [] view := by
    refine ⟨hnew.distinct, fun f hf => ?_, by simp, by simp, Nat.zero_le _⟩
    have hnone := holders_eq_zero.1 (hnew.unheld f hf) view (mem_views h.shown)
    exact (holds_eq_zero.1 hnone).2.2
  exact showsOwn_front_iff henv hstory h ⟨by simp, by simp, by simp⟩ (fun _ hf => hf) hqueue

/-- **What an isolated frame shows.** Every layout embeds the web app that was created for its
frame exactly if there is none, or the tab is the current one of the first window, no frame of
an earlier page waits in it, and the frames are laid out once each in the order in which they
were created, with the window ids that the tab has in front. -/
theorem showsOwn_iff (henv : env.Lawful) (hview : s.viewAt pos = some view)
    (hclient : view.clientId ≠ 0) (hids : ∀ view ∈ s.views, view.containerId ≠ 5)
    (hstory : Story [] [] es) (hnew : NewWebapps s (announced es)) :
    ShowsOwn page pos s es ↔ layouts es = [] ∨
      IsCurrent pos s ∧ view.iframeclientids = [] ∧ layouts es <+: announced es ∧
        (layouts es).map SubFrame.clientWId <+:
          view.iframewids ++ (announced es).map SubFrame.clientWId := by
  obtain ⟨window, windows, hwindows⟩ : ∃ window windows, s.windows = window :: windows := by
    obtain ⟨window, hwindow, -⟩ := viewAt_eq_some.1 hview
    cases hwindows : s.windows with
    | nil => rw [hwindows] at hwindow; cases hwindow
    | cons window windows => exact ⟨window, windows, rfl⟩
  by_cases hes : layouts es = []
  · exact iff_of_true (showsOwn_of_layouts_nil hwindows hes) (Or.inl hes)
  by_cases hpos : pos = (0, window.current)
  · have hcurrent : IsCurrent pos s := ⟨window, windows, hwindows, hpos⟩
    have hfront : AtFront (announced es) s pos view := by
      refine ⟨hcurrent, hview, hclient, hnew.created, fun other hother => ⟨hids other hother, ?_⟩⟩
      intro f hf heq
      have hnone := holders_eq_zero.1 (hnew.unheld f hf) other hother
      exact (holds_eq_zero.1 hnone).1 heq
    rw [showsOwn_start_iff henv hstory hfront hnew]
    simp only [hcurrent, true_and]
  · refine iff_of_false (not_showsOwn_behind hwindows hpos hes) ?_
    rintro (hnil | ⟨⟨window', windows', hwindows', hpos'⟩, -⟩)
    · exact hes hnil
    · rw [hwindows] at hwindows'
      cases hwindows'
      exact hpos hpos'

/-! ### Two frames -/

theorem plainEnv_lawful : plainEnv.Lawful where
  toString_ofByteArray _ := rfl
  stringToInt_arg n hlo hhi := by
    show atoi (QString.toLatin1 (QString.arg n)) = n
    rw [QString.arg, toLatin1_map, atoi_decimal hlo hhi]

def adFrame : SubFrame := ⟨[97, 100], 1030, 500⟩

def chatFrame : SubFrame := ⟨[99, 104, 97, 116], 1031, 501⟩

def box : Geometry := ⟨0, 0, 300, 200⟩

/-- Both frames are there before one is laid out. -/
def created (rest : List FrameEvent) : List FrameEvent :=
  .name adFrame :: .announce adFrame :: .name chatFrame :: .announce chatFrame :: rest

theorem story_created {rest : List FrameEvent}
    (h : Story [adFrame, chatFrame] [adFrame, chatFrame] rest) : Story [] [] (created rest) := by
  refine .name (by simp) (by decide) (.announce List.prefix_rfl ?_)
  refine .name ?_ (by decide) (.announce List.prefix_rfl h)
  intro f hf
  rw [List.mem_singleton.1 hf]
  decide

theorem box_isInt : box.IsInt := by
  constructor <;> decide

theorem newWebapps_twoTabs : NewWebapps twoTabs [adFrame, chatFrame] where
  distinct := by decide
  created f hf := by
    obtain rfl | rfl : f = adFrame ∨ f = chatFrame := by simpa using hf
    · decide
    · decide
  unheld f hf := by
    obtain rfl | rfl : f = adFrame ∨ f = chatFrame := by simpa using hf
    · rfl
    · rfl

def inOrder : List FrameEvent := created [.layout adFrame box, .layout chatFrame box]

def lastFirst : List FrameEvent := created [.layout chatFrame box, .layout adFrame box]

theorem story_lastFirst : Story [] [] lastFirst := by
  refine story_created (.layout ?_ box_isInt (.layout ?_ box_isInt .nil))
  · simp
  · simp

theorem showsOwn_iff_inOrder : ShowsOwn 1024 (0, 0) twoTabs inOrder ↔ layouts inOrder = [] ∨
    IsCurrent (0, 0) twoTabs ∧
      (twoTabs.windows.get ⟨0, by decide⟩).currentTab.iframeclientids = [] ∧
      layouts inOrder <+: announced inOrder ∧ (layouts inOrder).map SubFrame.clientWId <+:
        (twoTabs.windows.get ⟨0, by decide⟩).currentTab.iframewids ++
          (announced inOrder).map SubFrame.clientWId := by
  refine showsOwn_iff plainEnv_lawful rfl (by decide) ?_ ?_ newWebapps_twoTabs
  · intro view hview
    obtain rfl | rfl := by simpa [State.views, twoTabs] using hview
    · decide
    · decide
  · refine story_created (.layout ?_ box_isInt (.layout ?_ box_isInt .nil))
    · simp
    · simp

theorem front_twoTabs : AtFront [adFrame, chatFrame] twoTabs (0, 0)
    (twoTabs.windows.get ⟨0, by decide⟩).currentTab where
  current := ⟨_, _, rfl, rfl⟩
  shown := rfl
  taken := by decide
  created := newWebapps_twoTabs.created
  unheld view hview := by
    obtain rfl | rfl := by simpa [State.views, twoTabs] using hview
    · simp [adFrame, chatFrame]
    · simp [adFrame, chatFrame]

/-- The frame that is laid out first gets the web app of the frame that was created first. -/
theorem second_frame_first : Story [] [] lastFirst ∧ NewWebapps twoTabs (announced lastFirst) ∧
    ¬ ShowsOwn 1024 (0, 0) twoTabs lastFirst := by
  refine ⟨story_lastFirst, newWebapps_twoTabs, ?_⟩
  rw [showsOwn_start_iff plainEnv_lawful story_lastFirst front_twoTabs newWebapps_twoTabs]
  decide

end OpBrowser.Ui
