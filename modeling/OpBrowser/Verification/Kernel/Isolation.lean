import OpBrowser.Verification.DomainName.Origin
import OpBrowser.Verification.Kernel.Runs

/-! # Origin isolation

A process that is used again is used for one origin only. -/

namespace OpBrowser

open Kernel

/-- What is asked of the manager. In between, components write into their pipes. -/
inductive Call where
  | newUrl (containerId requester : I32) (data : Payload) (urlId : I32)
  | closeWebApp (containerId webAppId : I32)
  | write (pid : Pid) (msg : Message)

namespace Call

def perform : Call → Op Unit
  | newUrl containerId requester data urlId => handleNewUrl containerId requester data urlId
  | closeWebApp containerId webAppId => handleCloseWebApp containerId webAppId
  | write pid msg => Kernel.perform (.write pid msg)

/-- A new URL is the text of an absolute http or https URL. -/
def OnWeb : Call → Prop
  | newUrl _ _ data _ => ∃ u : WebUrl, cStr data.data = u.toBytes
  | _ => True

end Call

/-- A run of the manager. -/
def Kernel.Machine.calls (m : Machine) (cs : List Call) : Machine :=
  cs.foldl (fun m c => m.exec c.perform) m

/-- Every URL that was handed out is one. -/
def KState.OnlyWeb (s : KState) : Prop := ∀ f, s.Handed f → ∃ u : WebUrl, f.url = u.toBytes

/-- Two URLs that were handed to one process are of one origin. -/
structure Isolated (s : KState) : Prop where
  urls : s.OnlyWeb
  origins : ∀ f g, s.Handed f → s.Handed g → f.msg.dstId = g.msg.dstId →
    ∀ u v : WebUrl, f.url = u.toBytes → g.url = v.toBytes → u.SameOrigin v

/-- What a run keeps. While the kernel runs its invariant holds, and the URLs that
were handed out stay apart even when it stops. -/
structure Apart (m : Machine) : Prop where
  inv : m.fault = none → Inv .idle m.state
  labels : m.state.OneLabel
  urls : m.state.OnlyWeb

variable {s t : KState}

theorem Apart.isolated {m : Machine} (h : Apart m) : Isolated m.state where
  urls := h.urls
  origins f g hf hg hd u v hu hv := by
    refine WebUrl.sameOrigin_of_equals ?_
    rw [← hu, ← hv]
    exact h.labels f g hf hg hd

/-- The frames of a new URL hand over its text and nothing else. -/
theorem handed_newUrl {data : Payload} {g : Sent}
    (hsent : t.sent = s.sent ∨ (∃ f, t.sent = s.sent ++ [f] ∧ IsHandOver data f) ∨
      ∃ f n, t.sent = s.sent ++ [f, n] ∧ IsHandOver data f ∧ IsNotice s t n)
    (hg : t.Handed g) : s.Handed g ∨ g.url = cStr data.data := by
  obtain ⟨hmem, hsite, htype⟩ := hg
  rcases hsent with hsent | ⟨f, hsent, hf⟩ | ⟨f, n, hsent, hf, hn⟩
  · rw [hsent] at hmem
    exact .inl ⟨hmem, hsite, htype⟩
  · rw [hsent, List.mem_append, List.mem_singleton] at hmem
    rcases hmem with hmem | rfl
    · exact .inl ⟨hmem, hsite, htype⟩
    · exact .inr (by rw [Sent.url, hf.payload])
  · rw [hsent, List.mem_append, List.mem_pair] at hmem
    rcases hmem with hmem | rfl | rfl
    · exact .inl ⟨hmem, hsite, htype⟩
    · exact .inr (by rw [Sent.url, hf.payload])
    · rw [hn.type] at htype
      exact absurd htype (by decide)

theorem perform_call_outcome (h : Inv .idle s) (hw : s.OnlyWeb) {c : Call} (hc : c.OnWeb) :
    Outcome c.perform s (fun _ t => Inv .idle t ∧ t.OnlyWeb) fun _ t => t.OneLabel ∧ t.OnlyWeb := by
  cases c with
  | newUrl containerId requester data urlId =>
      obtain ⟨u, hu⟩ := hc
      have honly : ∀ t : KState, (∀ g, t.Handed g → s.Handed g ∨ g.url = cStr data.data) →
          t.OnlyWeb := fun t ht g hg => (ht g hg).elim (hw g) fun hurl => ⟨u, hurl.trans hu⟩
      refine (handleNewUrl_outcome h containerId requester data urlId).mono ?_ ?_
      · rintro - t ⟨ht, -, hsent⟩
        exact ⟨ht, honly t fun g => handed_newUrl (hsent.imp_right .inr)⟩
      · rintro - t ⟨-, -, hlabel, hsent⟩
        exact ⟨hlabel, honly t fun g => handed_newUrl hsent⟩
  | closeWebApp containerId webAppId =>
      refine (handleCloseWebApp_outcome h containerId webAppId).mono ?_ ?_
      · rintro - t ⟨ht, -, hsent⟩
        exact ⟨ht, fun g hg => hw g ((hsent.handed g).mp hg)⟩
      · rintro - t ⟨-, -, hsent⟩
        exact ⟨fun f g hf hg => h.labelled.pair f g ((hsent.handed f).mp hf)
            ((hsent.handed g).mp hg),
          fun g hg => hw g ((hsent.handed g).mp hg)⟩
  | write pid msg => exact ⟨h.setUnread pid _, hw⟩

theorem Apart.exec {m : Machine} (h : Apart m) {c : Call} (hc : c.OnWeb) :
    Apart (m.exec c.perform) := by
  cases hm : m.fault with
  | some f => rwa [exec_of_fault hm]
  | none =>
      rcases exec_outcome hm (perform_call_outcome (h.inv hm) h.urls hc) with
        ⟨-, hinv, hurls⟩ | ⟨f, hsome, hlabel, hurls⟩
      · exact ⟨fun _ => hinv, hinv.labelled.pair, hurls⟩
      · exact ⟨fun hnone => absurd (hnone.symm.trans hsome) (by simp), hlabel, hurls⟩

/-! ### Runs -/

theorem apart_boot (isCrawler : Bool) (fdLimit : ℕ) : Apart (boot isCrawler fdLimit) := by
  have hnone : ∀ f, ¬ (boot isCrawler fdLimit).state.Handed f := by
    intro f hf
    have hmem := hf.1
    rw [(boot_ok isCrawler fdLimit).1] at hmem
    cases hmem
  exact ⟨sound_boot isCrawler fdLimit, fun f _ hf => absurd hf (hnone f),
      fun f hf => absurd hf (hnone f)⟩

/-- However tabs are opened and closed, all URLs that one process was ever handed have
the same scheme, host and port. -/
theorem isolated_calls (isCrawler : Bool) (fdLimit : ℕ) (cs : List Call) (h : ∀ c ∈ cs, c.OnWeb) :
    Isolated ((boot isCrawler fdLimit).calls cs).state := by
  suffices ∀ m, Apart m → Apart (m.calls cs) from (this _ (apart_boot isCrawler fdLimit)).isolated
  induction cs with
  | nil => exact fun m hm => hm
  | cons c cs ih =>
      intro m hm
      exact ih (fun d hd => h d (List.mem_cons_of_mem c hd)) _ (hm.exec (h c List.mem_cons_self))

/-- A page is opened and closed, and another page of its site is opened. -/
theorem isolated_calls_reuse :
    let cs : List Call := [
      .write 5 { msgType := msgNewWebapp, msgValue := 77 },
      .newUrl 1 uiId (.ofBytes (bytes "http://a.com/\x00")) 1,
      .closeWebApp 1 1024,
      .newUrl 1 uiId (.ofBytes (bytes "http://A.com/x\x00")) 2]
    (∀ c ∈ cs, c.OnWeb) ∧ Isolated ((boot false 1024).calls cs).state := by
  intro cs
  let u : WebUrl := ⟨bytes "http", [bytes "a", bytes "com"], none, bytes "/", by decide, by decide,
    by simp only [← List.all_eq_true]; decide, by simp,
    .inr ⟨byte '/', [], rfl, by decide⟩, by decide⟩
  let v : WebUrl := ⟨bytes "http", [bytes "A", bytes "com"], none, bytes "/x", by decide, by decide,
    by simp only [← List.all_eq_true]; decide, by simp,
    .inr ⟨byte '/', [byte 'x'], rfl, by decide⟩, by decide⟩
  have h : ∀ c ∈ cs, c.OnWeb := by
    simp only [cs, List.forall_mem_cons]
    exact ⟨trivial, ⟨u, by decide⟩, trivial, ⟨v, by decide⟩, by simp⟩
  exact ⟨h, isolated_calls false 1024 cs h⟩

end OpBrowser
