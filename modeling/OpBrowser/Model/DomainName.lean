import OpBrowser.Library.Pattern
import OpBrowser.Model.Bytes

/-! # Origin labels (kernel/DomainName.cpp)

The label of a URL is peeled off its text with four greedy patterns, each tried
on the whole string. -/

namespace OpBrowser

/-- `DomainName`, with the values of its constructor. -/
structure DomainName where
  url : Bytes := []
  tld : Bytes := []
  sld : Bytes := []
  levels : List Bytes := []
  protocol : Bytes := []
  path : Bytes := []
  port : ℤ := 80
  deriving DecidableEq, Repr

namespace DomainName

open Pattern

/-- `^(http://|https://)(.*)` -/
def protocolPattern : Pattern UInt8 :=
  seq (group (alt (word (bytes "http://")) (word (bytes "https://"))))
    (group (many fun _ => true))

/-- `[\w\d\-\.]` -/
def isHostChar (c : UInt8) : Bool :=
  isWord c || isDigit c || c = byte '-' || c = byte '.'

/-- `^([\w\d\-\.]*)/(.*)` -/
def pathPattern : Pattern UInt8 :=
  seq (group (many isHostChar)) (seq (word [byte '/']) (group (many fun _ => true)))

/-- `(.*)\.(.{2,4})` -/
def tldPattern : Pattern UInt8 :=
  splitAt (byte '.') (between (fun _ => true) 2 4)

/-- `(.*)\.(.*)` -/
def domainPattern : Pattern UInt8 :=
  splitAt (byte '.') (many fun _ => true)

/-- `regex_match(a.c_str(), what, prot)` for a pattern with two groups. -/
def regexMatch (r : Pattern UInt8) (a : Bytes) : Option (Bytes × Bytes) :=
  match r.fullMatch (cStr a) with
  | some [x, y] => some (x, y)
  | _ => none

/-- The protocol and what is left in `a`. -/
def findProtocol (a : Bytes) : Bytes × Bytes :=
  (regexMatch protocolPattern a).elim ([], a) fun what => (what.1, what.2)

/-- The common shape of the other three: the second group is the result and
`a` keeps the first. -/
def cutSecond (r : Pattern UInt8) (a : Bytes) : Bytes × Bytes :=
  (regexMatch r a).elim ([], a) fun what => (what.2, what.1)

/-- The path and what is left in `a`. -/
def findPath (a : Bytes) : Bytes × Bytes := cutSecond pathPattern a

/-- The top-level domain and what is left in `a`. -/
def findTLD (a : Bytes) : Bytes × Bytes := cutSecond tldPattern a

/-- The last component and what is left in `a`. -/
def findDomain (a : Bytes) : Bytes × Bytes := cutSecond domainPattern a

/-- The loop over `tmp` at the end of `fromString`. Every round but the last
shortens `a`, so `a.length + 2` rounds suffice. -/
def peelLevels : ℕ → Bytes → Bytes → List Bytes → List Bytes
  | 0, _, _, levels => levels
  | fuel + 1, tmp, a, levels =>
      if tmp.isEmpty then levels
      else
        let (tmp, a) := findDomain a
        if tmp.isEmpty && !a.isEmpty then peelLevels fuel tmp a (a :: levels)
        else peelLevels fuel tmp a (tmp :: levels)

/-- `DomainName::fromString`. Each cut leaves the rest of `a` in its second
component, and the levels of an earlier call are kept. -/
def fromString (dn : DomainName) (s : Bytes) : DomainName :=
  let protocol := findProtocol (s.map toLower)
  let path := findPath protocol.2
  let tld := findTLD path.2
  let sld := findDomain tld.2
  { dn with
    url := s.map toLower
    protocol := protocol.1
    path := path.1
    tld := tld.1
    sld := sld.1
    levels := peelLevels (sld.2.length + 2) sld.2 sld.2 dn.levels }

/-- The label of a URL, as its users build it: `DomainName dn; dn.fromString(url)`. -/
def ofUrl (url : Bytes) : DomainName := fromString {} url

/-- `operator==`, which looks at neither the port nor the path. -/
def equals (a b : DomainName) : Prop :=
  a.protocol = b.protocol ∧ a.tld = b.tld ∧ a.sld = b.sld ∧
    a.levels.length = b.levels.length ∧ a.levels = b.levels

instance (a b : DomainName) : Decidable (equals a b) :=
  inferInstanceAs (Decidable (_ ∧ _))

theorem equals_refl (a : DomainName) : equals a a := ⟨rfl, rfl, rfl, rfl, rfl⟩

theorem equals_symm {a b : DomainName} (h : equals a b) : equals b a := by
  obtain ⟨h₁, h₂, h₃, h₄, h₅⟩ := h
  exact ⟨h₁.symm, h₂.symm, h₃.symm, h₄.symm, h₅.symm⟩

theorem equals_trans {a b c : DomainName} (h : equals a b) (h' : equals b c) : equals a c := by
  obtain ⟨h₁, h₂, h₃, h₄, h₅⟩ := h
  obtain ⟨h₁', h₂', h₃', h₄', h₅'⟩ := h'
  exact ⟨h₁.trans h₁', h₂.trans h₂', h₃.trans h₃', h₄.trans h₄', h₅.trans h₅'⟩

/-- `DomainName::sameOrigin`. Its condition `a.port = b.port && a == b` assigns
the truth value of `b.port && a == b` to the local copy of `a.port`. -/
def sameOrigin (a b : DomainName) : Prop := b.port ≠ 0 ∧ equals a b

instance (a b : DomainName) : Decidable (sameOrigin a b) :=
  inferInstanceAs (Decidable (_ ∧ _))

example : (ofUrl (bytes "HTTP://www.x.org/a.b")).levels = [bytes "www"] := by decide +kernel

end DomainName

end OpBrowser
