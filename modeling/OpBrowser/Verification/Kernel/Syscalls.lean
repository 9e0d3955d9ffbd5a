import OpBrowser.Verification.Kernel.Runs

/-! # System calls of web apps

Exactly when a system call that waits in the pipe of a web app lets the kernel go on. -/

namespace OpBrowser

open Kernel

/-- The next frame in the pipe of this web app is a system call with a case in
`handleSyscall`. -/
structure Pending (s : KState) (k : I32) (a : Addr) (p : Process) (msg : Message) : Prop where
  web : webappFirstId ≤ k
  registered : s.procMap[k]? = some a
  record : s.procs[a]? = some p
  head : (s.unread p.pid).head? = some msg
  call : msg.dstId = kernelId
  known : msg.msgType ∈ syscalls

/-- The handler of a waiting system call returns exactly when the arguments and the
tables suit the call. -/
theorem handleMessage_returns_iff (isCrawler : Bool) (fdLimit : ℕ) (es : List Event)
    {k : I32} {a : Addr} {p : Process} {msg : Message}
    (hrun : ((boot isCrawler fdLimit).run es).fault = none)
    (h : Pending ((boot isCrawler fdLimit).run es).state k a p msg) :
    Returns (handleMessage a) ((boot isCrawler fdLimit).run es).state ↔
      SyscallOk (((boot isCrawler fdLimit).run es).state.received p).2 a
        (((boot isCrawler fdLimit).run es).state.received p).1 := by
  have hinv := sound_run isCrawler fdLimit es hrun
  generalize ((boot isCrawler fdLimit).run es).state = s at h hinv ⊢
  have hreceived : (s.received p).1.dstId = kernelId := by
    obtain ⟨rest, hu⟩ := List.head?_eq_some_iff.mp h.head
    rw [KState.received, hu]
    exact h.call
  refine returns_iff ((handleMessage_outcome hinv h.record).mono ?_ ?_)
  · rintro - t ⟨-, hok, -⟩
    exact hok hreceived
  · rintro e t ⟨-, hbad, -⟩
    exact hbad

/-- A web app that has introduced itself asks for a URL. -/
theorem handleMessage_returns_newUrl :
    let m := (boot false 1024).run [
      .write 5 { msgType := msgNewWebapp, msgValue := 77 }, .handle 1024,
      .write 5
        { msgType := msgNewUrl, msgValue := 1, payload := .ofBytes (bytes "http://a.com/\x00") }]
    let p : Process := { inFd := 12, outFd := 13, pid := 5, objectId := 1024, clientId := some 77 }
    Returns (handleMessage 4) m.state ∧
      SyscallOk (m.state.received p).2 4 (m.state.received p).1 := by
  intro m p
  have hpending : Pending m.state 1024 4 p
      { msgType := msgNewUrl, msgValue := 1, payload := .ofBytes (bytes "http://a.com/\x00") } :=
    ⟨by decide, by decide +kernel, by decide +kernel, by decide +kernel, rfl, by decide⟩
  refine ⟨by decide +kernel, (handleMessage_returns_iff false 1024 _ ?_ hpending).mp ?_⟩ <;>
    decide +kernel

/-- The spare web app asks for a URL without sending one. -/
theorem newUrl_without_data_stops :
    let m := (boot false 1024).run [.write 5 { msgType := msgNewUrl, msgValue := 1 }]
    let p : Process := { inFd := 12, outFd := 13, pid := 5, objectId := 1024 }
    m.fault = none ∧ Pending m.state 1024 4 p { msgType := msgNewUrl, msgValue := 1 } ∧
      ¬ Returns (handleMessage 4) m.state := by
  intro m p
  exact ⟨by decide, ⟨by decide, by decide, by decide, by decide, rfl, by decide⟩, by decide⟩

end OpBrowser
