import Mathlib.Data.List.Nodup
import OpBrowser.Verification.Kernel.Records

/-! # Homes of web apps

One rule for each way in which a process moves between the list of running web apps,
the cache and the spare slot. -/

namespace OpBrowser

open Kernel

variable {ph : Phase} {s : KState} {a w : Addr} {k : I32}

/-! ### Out of a home -/

theorem Placement.take (h : Placement .idle s) {pre post : List Addr}
    (he : s.cache.entries = pre ++ a :: post) :
    Placement (.floating a) (s.setEntries (pre ++ post)) := by
  have hmem : ∀ b, s.Parked b ↔ b ∈ pre ++ post ∨ b = a := by
    intro b
    simp only [KState.Parked, he, List.mem_append, List.mem_cons]
    tauto
  have hnodup : a ∉ pre ++ post ∧ (pre ++ post).Nodup :=
    List.nodup_cons.mp (List.nodup_middle.mp (he ▸ h.nodup))
  have hparked : s.Parked a := (hmem a).mpr (.inr rfl)
  refine { h with
    listed := ?_, spare := ?_, parked := ?_, placed := ?_, floating := ?_, nodup := hnodup.2,
    size := ?_ }
  · intro n e hn
    obtain ⟨hn', v, b, heq, hv, hb, hc⟩ := h.listed_known (by simp) hn
    exact ⟨hn', v, b, heq, hv, hb, .inl hc⟩
  · intro v hv
    obtain ⟨r, b, n, hr, hrp, hb, hn, hl, hp, hc⟩ := h.spare v hv
    exact ⟨r, b, n, hr, hrp, hb, hn, hl, fun hb' => hp ((hmem b).mpr (.inl hb')), hc⟩
  · intro b hb
    exact h.parked b ((hmem b).mpr (.inl hb))
  · intro b n hb hn
    rcases h.placed_home (by simp) hb hn with hl | hp | hs
    · exact .inl hl
    · rcases (hmem b).mp hp with hp | rfl
      · exact .inr (.inl hp)
      · exact .inr (.inr (.inr rfl))
    · exact .inr (.inr (.inl hs))
  · rintro b ⟨⟩
    obtain ⟨n, hn, hweb, hl, -⟩ := h.parked a hparked
    refine ⟨n, hn, hweb, hl, hnodup.1, fun hs => ?_⟩
    obtain ⟨-, -, -, -, hnot⟩ := h.spare_proc hs
    exact hnot hparked
  · have hsize := h.size
    change (pre ++ post).length ≤ s.cache.size
    simp only [he, List.length_append, List.length_cons] at hsize ⊢
    omega

/-- `hit` takes a process out of the cache. -/
theorem Inv.take (h : Inv .idle s) {pre post : List Addr}
    (he : s.cache.entries = pre ++ a :: post) :
    Inv (.floating a) (s.setEntries (pre ++ post)) :=
  ⟨{ h.registry with }, h.placement.take he, { h.labelled with }, fun _ => h.ui (by simp)⟩

/-- A new tab takes the spare process. -/
theorem Inv.takeSpare (h : Inv .idle s) (hc : s.cachedWebApp = some w)
    (hw : s.appProc w = some a) : Inv (.floating a) (s.setSpare none) := by
  obtain ⟨n, hn, hweb, hl, hp⟩ := h.placement.spare_proc ⟨w, hc, hw⟩
  have hnone : ∀ b, ¬ (s.setSpare none).Spare b := by
    rintro b ⟨v, hv, -⟩
    cases hv
  refine ⟨{ h.registry with },
    { h.placement with listed := ?_, spare := ?_, placed := ?_, floating := ?_ },
    { h.labelled with spare := fun f _ b hb => absurd hb (hnone b) }, fun _ => h.ui (by simp)⟩
  · intro m e he
    obtain ⟨hm, v, b, heq, hv, hb, hcl⟩ := h.placement.listed_known (by simp) he
    exact ⟨hm, v, b, heq, hv, hb, .inl hcl⟩
  · rintro v ⟨⟩
  · intro b m hb hm
    rcases h.placement.placed_home (by simp) hb hm with hl' | hp' | ⟨v, hv, hvb⟩
    · exact .inl hl'
    · exact .inr (.inl hp')
    · rw [hc] at hv
      cases hv
      rw [hw] at hvb
      exact .inr (.inr (.inr (by rw [Option.some.inj hvb])))
  · rintro b ⟨⟩
    exact ⟨n, hn, hweb, hl, hp, hnone a⟩

/-! ### Into the list -/

theorem Placement.list (h : Placement (.floating a) s) (hreg : Registry s)
    (hw : s.appProc w = some a) (hk : s.objectAt a = some k) :
    Placement (.unnamed a) (s.list k w) := by
  obtain ⟨n, hn, hweb, hl, hp, hs⟩ := h.floating a rfl
  rw [hk] at hn
  cases hn
  have hne : ∀ b n, s.objectAt b = some n → b ≠ a → k ≠ n := by
    rintro b n hb hba rfl
    exact hba (hreg.objectAt_inj hb hk)
  have hlist : ∀ n : I32, (s.list k w).webAppList[n]? =
      if k = n then some (some w) else s.webAppList[n]? := fun n => OrdMap.getElem?_insert ..
  refine { h with listed := ?_, spare := ?_, parked := ?_, placed := ?_, floating := by simp }
  · intro n e he
    rw [hlist] at he
    split at he
    · rename_i hkn
      cases he
      exact ⟨hkn ▸ hweb, w, a, rfl, hw, hkn ▸ hk, .inr rfl⟩
    · obtain ⟨hn, v, b, heq, hv, hb, hc⟩ := h.listed_known (by simp) he
      exact ⟨hn, v, b, heq, hv, hb, .inl hc⟩
  · intro v hv
    obtain ⟨r, b, n, hr, hrp, hb, hn, hl', hp', hc⟩ := h.spare v hv
    have hba : b ≠ a := by
      rintro rfl
      exact hs ⟨v, hv, by rw [KState.appProc, hr, Option.bind_some, hrp]⟩
    exact ⟨r, b, n, hr, hrp, hb, hn, by rw [hlist, if_neg (hne b n hb hba), hl'], hp', hc⟩
  · intro b hb
    obtain ⟨n, hn, hn', hl', hc⟩ := h.parked b hb
    have hba : b ≠ a := by
      rintro rfl
      exact hp hb
    exact ⟨n, hn, hn', by rw [hlist, if_neg (hne b n hn hba), hl'], hc⟩
  · intro b n hb hn
    rcases h.placed b n hb hn with hl' | hp' | hs' | hf
    · refine .inl ?_
      rw [hlist]
      split <;> simp [hl']
    · exact .inr (.inl hp')
    · exact .inr (.inr (.inl hs'))
    · cases hf
      have hkn : k = n := Option.some.inj (hk.symm.trans hb)
      exact .inl (by rw [hlist, if_pos hkn]; simp)

/-- `addToWebAppList` -/
theorem Inv.list (h : Inv (.floating a) s) (hw : s.appProc w = some a)
    (hk : s.objectAt a = some k) :
    Inv (.unnamed a) (s.list k w) :=
  ⟨{ h.registry with }, h.placement.list h.registry hw hk, { h.labelled with },
    fun _ => h.ui (by simp)⟩

/-- The window id of the new web app is known. -/
theorem Inv.named (h : Inv (.unnamed a) s) (hc : s.clientAt a ≠ none) : Inv .idle s := by
  refine ⟨h.registry, { h.placement with listed := ?_, placed := ?_, floating := by simp },
    h.labelled, fun _ => h.ui (by simp)⟩
  · intro n e he
    obtain ⟨hn, v, b, heq, hv, hb, hcl⟩ := h.placement.listed n e he
    refine ⟨hn, v, b, heq, hv, hb, .inl ?_⟩
    cases hcl with
    | inl hcl => exact hcl
    | inr hab =>
        cases hab
        exact hc
  · intro b n hb hn
    rcases h.placement.placed_home (by simp) hb hn with hl | hp | hs
    · exact .inl hl
    · exact .inr (.inl hp)
    · exact .inr (.inr (.inl hs))

/-! ### Into the cache -/

theorem Placement.park (h : Placement .idle s) (hreg : Registry s)
    (hl : s.webAppList[k]? = some (some w)) (hw : s.appProc w = some a)
    (hlt : s.cache.entries.length < s.cache.size) :
    Placement .idle ((s.setEntries (s.cache.entries ++ [a])).unlist k) := by
  obtain ⟨hweb, v, b, hv, hb, hk, hc⟩ := h.listed_known (by simp) hl
  cases hv
  rw [hw] at hb
  cases hb
  have hunlist : ∀ n : I32, ((s.setEntries (s.cache.entries ++ [a])).unlist k).webAppList[n]? =
      if k = n then none else s.webAppList[n]? := fun n => OrdMap.getElem?_erase ..
  have hnot : ∀ n, s.objectAt a = some n → s.webAppList[n]? ≠ none := by
    intro n hn
    rw [← Option.some.inj (hk.symm.trans hn), hl]
    exact Option.some_ne_none _
  have hnew : a ∉ s.cache.entries := by
    intro ha
    obtain ⟨n, hn, -, hln, -⟩ := h.parked a ha
    exact hnot n hn hln
  refine { h with
    listed := ?_, spare := ?_, parked := ?_, placed := ?_, floating := by simp, nodup := ?_,
    size := ?_ }
  · intro n e he
    rw [hunlist] at he
    split at he
    · cases he
    · exact h.listed n e he
  · intro v hv
    obtain ⟨r, c, n, hr, hrp, hcn, hn, hl', hp, hcl⟩ := h.spare v hv
    refine ⟨r, c, n, hr, hrp, hcn, hn, by rw [hunlist, hl', ite_self], fun hc' => ?_, hcl⟩
    cases List.mem_append.mp hc' with
    | inl hc' => exact hp hc'
    | inr hc' =>
        rw [List.mem_singleton.mp hc'] at hcn
        exact hnot n hcn hl'
  · intro c hc'
    cases List.mem_append.mp hc' with
    | inl hc' =>
        obtain ⟨n, hn, hn', hl', hcl⟩ := h.parked c hc'
        exact ⟨n, hn, hn', by rw [hunlist, hl', ite_self], hcl⟩
    | inr hc' =>
        rw [List.mem_singleton.mp hc']
        exact ⟨k, hk, hweb, by rw [hunlist, if_pos rfl], hc⟩
  · intro c n hcn hn
    by_cases hkn : k = n
    · subst hkn
      rw [hreg.objectAt_inj hcn hk]
      exact .inr (.inl (List.mem_append_right _ (List.mem_singleton_self a)))
    · rcases h.placed_home (by simp) hcn hn with hl' | hp | hs
      · exact .inl (by rwa [hunlist, if_neg hkn])
      · exact .inr (.inl (List.mem_append_left _ hp))
      · exact .inr (.inr (.inl hs))
  · refine List.nodup_append.mpr ⟨h.nodup, List.nodup_singleton a, ?_⟩
    intro c hc' d hd heq
    rw [List.mem_singleton.mp hd] at heq
    exact hnew (heq ▸ hc')
  · change (s.cache.entries ++ [a]).length ≤ s.cache.size
    rw [List.length_append]
    exact hlt

/-- `handleCloseWebApp` moves a running process into the cache. -/
theorem Inv.park (h : Inv .idle s) (hl : s.webAppList[k]? = some (some w))
    (hw : s.appProc w = some a) (hlt : s.cache.entries.length < s.cache.size) :
    Inv .idle ((s.setEntries (s.cache.entries ++ [a])).unlist k) :=
  ⟨{ h.registry with }, h.placement.park h.registry hl hw hlt, { h.labelled with }, h.ui⟩

end OpBrowser
