import OpBrowser.Verification.DomainName.Fields
import OpBrowser.Verification.DomainName.Origin

/-! # One origin, one label

The path pattern admits neither a colon nor a text without a slash, so the rest of some
URLs stays behind the authority and flows into the fields of the label. -/

namespace OpBrowser

open DomainName

namespace WebUrl

variable {u v : WebUrl}

theorem lowerAuthority_eq (h : u.SameOrigin v) : u.lowerAuthority = v.lowerAuthority := by
  rw [lowerAuthority, lowerAuthority, h.host, h.port]

theorem protocol_ofUrl (u : WebUrl) :
    (ofUrl u.toBytes).protocol = u.scheme.map toLower ++ bytes "://" :=
  congrArg Prod.fst u.findProtocol_toBytes

theorem fields_toBytes (u : WebUrl) :
    ((ofUrl u.toBytes).tld, (ofUrl u.toBytes).sld, (ofUrl u.toBytes).levels) =
      fields u.labelText := by
  rw [fields_ofUrl, findProtocol_toBytes, findPath_lower]

/-- Within an origin, only the fields made of the text behind the protocol can differ. -/
theorem sameOrigin_iff_fields (h : u.SameOrigin v) :
    sameOrigin (ofUrl u.toBytes) (ofUrl v.toBytes) ↔
      fields u.labelText = fields v.labelText := by
  rw [← fields_toBytes, ← fields_toBytes, Prod.mk.injEq, Prod.mk.injEq]
  constructor
  · rintro ⟨-, -, htld, hsld, -, hlevels⟩
    exact ⟨htld, hsld, hlevels⟩
  · rintro ⟨htld, hsld, hlevels⟩
    have hport : (ofUrl v.toBytes).port = 80 := rfl
    refine ⟨by rw [hport]; decide, ?_, htld, hsld, congrArg List.length hlevels, hlevels⟩
    rw [protocol_ofUrl, protocol_ofUrl, h.scheme]

theorem sameOrigin_iff_twins (h : u.SameOrigin v) :
    sameOrigin (ofUrl u.toBytes) (ofUrl v.toBytes) ↔ Twins u.labelText v.labelText := by
  rw [sameOrigin_iff_fields h, fields_eq_iff u.startable_labelText v.startable_labelText]

/-- Behind a host of several labels the second component is not empty. -/
theorem twoComponents_lowerAuthority (hlen : u.host.length ≠ 1) (s : Bytes) :
    TwoComponents (u.lowerAuthority ++ s) := by
  have hhost := u.isHost.map_toLower
  rw [lowerAuthority, hostText, joinDots_map]
  cases hls : u.host with
  | nil => exact absurd hls u.host_ne
  | cons l ls =>
      rw [hls] at hhost hlen
      cases ls with
      | nil => exact absurd rfl hlen
      | cons m ls =>
          have htail : IsHost ((m :: ls).map (List.map toLower)) :=
            ⟨by simp, fun x hx => hhost.2 x (List.mem_cons_of_mem _ hx)⟩
          obtain ⟨c, r, he, hc⟩ := htail.head
          have hdot : byte '.' ∉ l.map toLower := fun hm =>
            (ne_of_isLabelChar ((hhost.2 _ (by simp)).2 _ hm)).2.1 rfl
          refine ⟨l.map toLower, c, r ++ u.port.elim [] (byte ':' :: ·) ++ s, hdot,
            (ne_of_isLabelChar hc).2.1, ?_⟩
          rw [List.map_cons, joinDots_cons _ (by simp), he]
          simp

/-- **Labels of one origin.** They agree exactly when the path cut leaves the same text behind
both authorities, or, for a host of one label, texts that lose the same dots. -/
theorem sameOrigin_iff_leftover (u v : WebUrl) (h : u.SameOrigin v) :
    sameOrigin (ofUrl u.toBytes) (ofUrl v.toBytes) ↔
      u.leftover = v.leftover ∨ u.host.length = 1 ∧ Twins u.labelText v.labelText := by
  constructor
  · intro hsame
    have htwins := (sameOrigin_iff_twins h).mp hsame
    by_cases hlen : u.host.length = 1
    · exact .inr ⟨hlen, htwins⟩
    · have htext := htwins.eq (twoComponents_lowerAuthority hlen _)
        (by rw [labelText, ← lowerAuthority_eq h]; exact twoComponents_lowerAuthority hlen _)
      rw [labelText, labelText, lowerAuthority_eq h] at htext
      exact .inl (List.append_cancel_left htext)
  · rintro (hleft | ⟨-, htwins⟩)
    · rw [sameOrigin_iff_fields h, labelText, labelText, lowerAuthority_eq h, hleft]
    · exact (sameOrigin_iff_twins h).mpr htwins

/-- `http://a.com/` -/
def frontPage : WebUrl where
  scheme := bytes "http"
  host := [bytes "a", bytes "com"]
  port := none
  rest := bytes "/"
  scheme_http := by decide
  host_ne := by decide
  host_labels := by
    have hall : ∀ l ∈ [bytes "a", bytes "com"], l ≠ [] ∧ l.all isLabelChar = true := by decide
    exact fun l hl => ⟨(hall l hl).1, List.all_eq_true.mp (hall l hl).2⟩
  port_digits := by simp
  rest_head := .inr ⟨byte '/', [], rfl, by decide⟩
  rest_no_nul := by decide

/-- `http://a.com/b` -/
def innerPage : WebUrl :=
  { frontPage with
    rest := bytes "/b"
    rest_head := .inr ⟨byte '/', bytes "b", rfl, by decide⟩
    rest_no_nul := by decide }

theorem sameOrigin_iff_leftover_inner :
    sameOrigin (ofUrl frontPage.toBytes) (ofUrl innerPage.toBytes) :=
  (sameOrigin_iff_leftover frontPage innerPage ⟨rfl, rfl, rfl⟩).mpr (.inl (by decide))

/-- The page with a port in front of its path. -/
def withPort (u : WebUrl) : WebUrl :=
  { u with
    port := some (bytes "8080")
    port_digits := by
      intro p hp
      rw [← Option.some.inj hp]
      exact List.all_eq_true.mp (by decide) }

theorem inner_page_loses_origin :
    frontPage.withPort.toBytes = bytes "http://a.com:8080/" ∧
      innerPage.withPort.toBytes = bytes "http://a.com:8080/b" ∧
      frontPage.withPort.SameOrigin innerPage.withPort ∧
      ¬ sameOrigin (ofUrl frontPage.withPort.toBytes) (ofUrl innerPage.withPort.toBytes) :=
  ⟨by decide, by decide, ⟨rfl, rfl, rfl⟩, by decide +kernel⟩

end WebUrl

end OpBrowser
