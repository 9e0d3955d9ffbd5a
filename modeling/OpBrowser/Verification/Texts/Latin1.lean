import OpBrowser.Model.FrameInit
import OpBrowser.Verification.Texts.Numbers

/-! # Strings in the data of messages

A string goes out as Latin-1, and comes back up to its first NUL. -/

namespace OpBrowser

theorem toUInt16_toUInt8 (b : UInt8) : b.toUInt16.toUInt8 = b := by
  simp

theorem latin1_toUInt16 (b : UInt8) : b.toUInt16 ≤ 0xFF := by
  rw [UInt16.le_iff_toNat_le]
  have hlt := b.toNat_lt
  simp
  omega

theorem toLatin1_map (b : Bytes) : QString.toLatin1 (b.map UInt8.toUInt16) = b := by
  rw [QString.toLatin1, List.map_map]
  have hid : ∀ u ∈ b, (fun c : UInt16 => if c ≤ 0xFF then c.toUInt8 else
      QString.questionMark.toUInt8) (UInt8.toUInt16 u) = u := by
    intro u _
    dsimp only
    rw [if_pos (latin1_toUInt16 u), toUInt16_toUInt8]
  exact (List.map_congr_left hid).trans (List.map_id b)

theorem comma_notMem_arg (n : I32) : QString.comma ∉ QString.arg n := by
  intro h
  obtain ⟨b, hb, hcomma⟩ := List.mem_map.1 h
  have hbyte := congrArg UInt16.toUInt8 hcomma
  rw [toUInt16_toUInt8] at hbyte
  rw [hbyte] at hb
  exact notMem_decimal (by decide) (by decide) hb

/-- Text without NUL reaches the other side, whatever stands behind it. -/
theorem fromAscii_append {b : Bytes} (h : (0 : UInt8) ∉ b) (rest : QString) :
    QString.fromAscii (QString.toLatin1 (b.map UInt8.toUInt16 ++ rest)) =
      b.map UInt8.toUInt16 ++ QString.fromAscii rest.toLatin1 := by
  have hlatin : QString.toLatin1 (b.map UInt8.toUInt16 ++ rest) = b ++ rest.toLatin1 := by
    rw [QString.toLatin1, List.map_append]
    exact congrArg (· ++ _) (toLatin1_map b)
  rw [hlatin, QString.fromAscii, cStr, List.takeWhile_append_of_pos]
  · exact List.map_append
  · intro u hu
    simpa using ne_of_mem_of_not_mem hu h

theorem fromAscii_arg (n : I32) (rest : QString) :
    QString.fromAscii (QString.toLatin1 (QString.arg n ++ QString.comma :: rest)) =
      QString.arg n ++ QString.comma :: QString.fromAscii rest.toLatin1 := by
  have hnul : (0 : UInt8) ∉ decimal n ++ [44] := by
    rw [List.mem_append, not_or]
    exact ⟨notMem_decimal (by decide) (by decide), by decide⟩
  have hsplit : QString.arg n ++ QString.comma :: rest =
      (decimal n ++ [44]).map UInt8.toUInt16 ++ rest := by
    rw [List.map_append, List.append_assoc]
    rfl
  rw [hsplit, fromAscii_append hnul, List.map_append, List.append_assoc]
  rfl

/-- A name without commas has none on the other side. -/
theorem comma_notMem_fromAscii {name : QString} (h : QString.comma ∉ name) :
    QString.comma ∉ QString.fromAscii name.toLatin1 := by
  intro hmem
  obtain ⟨b, hb, hcomma⟩ := List.mem_map.1 hmem
  have hbyte := congrArg UInt16.toUInt8 hcomma
  rw [toUInt16_toUInt8] at hbyte
  obtain ⟨c, hc, hlatin⟩ := List.mem_map.1 (List.takeWhile_subset _ hb)
  rw [hbyte] at hlatin
  split at hlatin
  · rename_i hle
    have heq : c = QString.comma := by
      have hlt : c.toNat < 2 ^ 8 := Nat.lt_succ_of_le (UInt16.le_iff_toNat_le.1 hle)
      have hnat := congrArg UInt8.toNat hlatin
      rw [UInt16.toNat_toUInt8, Nat.mod_eq_of_lt hlt] at hnat
      exact UInt16.toNat_inj.1 hnat
    exact h (heq ▸ hc)
  · exact absurd hlatin (by decide)

end OpBrowser
