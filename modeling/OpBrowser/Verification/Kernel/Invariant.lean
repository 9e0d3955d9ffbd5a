import OpBrowser.Model.Main
import OpBrowser.Verification.Descriptors.Inheritance

/-! # The invariant of the kernel's tables

`procMap` stands in bijection with the process records. Every web app record has
one home: the list of running web apps, the cache, or the spare slot. A `Phase`
names the one record that is between two homes while a handler runs. -/

namespace OpBrowser

open Kernel

namespace KState

variable (s : KState)

/-! ### What the records say -/

/-- `app->proc` -/
def appProc (app : Addr) : Option Addr := s.apps[app]?.bind (·.proc)

/-- `proc->objectId` -/
def objectAt (proc : Addr) : Option I32 := s.procs[proc]?.map (·.objectId)

/-- `proc->clientId`, once it is known. -/
def clientAt (proc : Addr) : Option I32 := s.procs[proc]?.bind (·.clientId)

/-- The process runs under this object id. -/
def Running (k : I32) (proc : Addr) : Prop :=
  ∃ app, s.webAppList[k]? = some (some app) ∧ s.appProc app = some proc

/-- The process is the pre-created one. -/
def Spare (proc : Addr) : Prop := ∃ app, s.cachedWebApp = some app ∧ s.appProc app = some proc

/-- The process waits in the cache. -/
def Parked (proc : Addr) : Prop := proc ∈ s.cache.entries

/-- A frame that hands a URL to a web app. -/
def Handed (f : Sent) : Prop :=
  f ∈ s.sent ∧ f.site = .handleNewUrl ∧ f.msg.msgType = msgSetUrl

end KState

/-- The URL that a frame carries, as the kernel reads it. -/
def Sent.url (f : Sent) : Bytes := cStr f.msg.payload.data

/-- What the handler that is running has done so far. -/
inductive Phase where
  | booting
  /-- Between two handlers. -/
  | idle
  /-- This process has been taken from the cache or the spare slot. -/
  | floating (proc : Addr)
  /-- This process runs, but its window id is not known. -/
  | unnamed (proc : Addr)
  deriving DecidableEq

def coreIds : List I32 := [networkId, uiId, cookieId, storageId]

theorem lt_of_mem_coreIds : ∀ k ∈ coreIds, k < webappFirstId := by decide

/-! ### The parts of the invariant -/

/-- `procMap`, the process records, the kill list and the kernel's descriptors. -/
structure Registry (s : KState) : Prop where
  keyed : ∀ k a, s.procMap[k]? = some a ↔ s.objectAt a = some k
  ids : ∀ a k, s.objectAt a = some k →
    k ∈ coreIds ∨ webappFirstId ≤ k ∧ k < webappFirstId + s.webAppIdOffset
  offset : 0 ≤ s.webAppIdOffset
  pids : ∀ (a : Addr) (p : Process), s.procs[a]? = some p → p.pid < s.nextPid
  distinct : ∀ (a b : Addr) (p q : Process), s.procs[a]? = some p → s.procs[b]? = some q →
    p.pid = q.pid → a = b
  killed : ∀ n e, s.killList[n]? = some e →
    n < s.nextPid ∧ ∀ (a : Addr) (p : Process), s.procs[a]? = some p → p.pid ≠ n
  inFds : ∀ (a : Addr) (p : Process), s.procs[a]? = some p →
    s.fds.slot p.inFd = some (endOf p.pid .inPipe .write)
  acc : s.accessControl = .create

/-- Every web app record has one home, except for the one that the phase names. -/
structure Placement (ph : Phase) (s : KState) : Prop where
  listed : ∀ k e, s.webAppList[k]? = some e →
    webappFirstId ≤ k ∧ ∃ app a, e = some app ∧ s.appProc app = some a ∧ s.objectAt a = some k ∧
      (s.clientAt a ≠ none ∨ ph = .unnamed a)
  spare : ∀ app, s.cachedWebApp = some app →
    ∃ (r : WebAppProcess) (a : Addr) (k : I32), s.apps[app]? = some r ∧ r.proc = some a ∧
      s.objectAt a = some k ∧
      webappFirstId ≤ k ∧ s.webAppList[k]? = none ∧ ¬ s.Parked a ∧
      (r.client ≠ 0 → s.clientAt a ≠ none)
  parked : ∀ a, s.Parked a →
    ∃ k, s.objectAt a = some k ∧ webappFirstId ≤ k ∧ s.webAppList[k]? = none ∧
      s.clientAt a ≠ none
  placed : ∀ a k, s.objectAt a = some k → webappFirstId ≤ k →
    s.webAppList[k]? ≠ none ∨ s.Parked a ∨ s.Spare a ∨ ph = .floating a
  floating : ∀ a, ph = .floating a →
    ∃ k, s.objectAt a = some k ∧ webappFirstId ≤ k ∧ s.webAppList[k]? = none ∧
      ¬ s.Parked a ∧ ¬ s.Spare a
  nodup : s.cache.entries.Nodup
  size : s.cache.entries.length ≤ s.cache.size
  policy : s.cache.matchPolicy = .sopMatch

/-- Every URL that a process was given has the label that the process bears now,
and two URLs that went to one process have the same label. -/
structure Labelled (s : KState) : Prop where
  known : ∀ f, s.Handed f →
    webappFirstId ≤ f.msg.dstId ∧ f.msg.dstId < webappFirstId + s.webAppIdOffset
  label : ∀ f, s.Handed f → ∀ (a : Addr) (p : Process), s.procs[a]? = some p →
    p.objectId = f.msg.dstId →
    DomainName.equals p.label (.ofUrl f.url)
  spare : ∀ f, s.Handed f → ∀ a, s.Spare a → s.objectAt a ≠ some f.msg.dstId
  pair : ∀ f g, s.Handed f → s.Handed g → f.msg.dstId = g.msg.dstId →
    DomainName.equals (.ofUrl f.url) (.ofUrl g.url)

/-- The descriptor that leads to the UI. -/
def UiReady (ph : Phase) (s : KState) : Prop :=
  ph ≠ .booting → ∃ (a : Addr) (p : Process), s.procs[a]? = some p ∧ p.objectId = uiId ∧
    s.uiFd = p.inFd

structure Inv (ph : Phase) (s : KState) : Prop where
  registry : Registry s
  placement : Placement ph s
  labelled : Labelled s
  ui : UiReady ph s

end OpBrowser
