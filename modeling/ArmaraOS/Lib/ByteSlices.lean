import ArmaraOS.Lib.Text

/-!
Slices of a text by byte positions.

A slice exists where both positions are in the text and on a boundary of its characters; elsewhere
taking it panics. Cut at the byte length of what stands in front, a text falls apart as it was put
together.
-/

namespace ArmaraOS.Text

/-! ### Byte lengths -/

theorem byteLength_cons (c : Char) (cs : List Char) :
    byteLength (c :: cs) = c.utf8Size + byteLength cs := by
  rw [byteLength, List.map_cons, List.sum_cons, byteLength]

theorem byteLength_append (cs ds : List Char) :
    byteLength (cs ++ ds) = byteLength cs + byteLength ds := by
  simp only [byteLength, List.map_append, List.sum_append]

theorem byteLength_le_of_prefix {xs ys : List Char} (h : xs <+: ys) :
    byteLength xs ≤ byteLength ys := by
  obtain ⟨behind, rfl⟩ := h
  rw [byteLength_append]
  exact Nat.le_add_right _ _

theorem byteLength_le_of_suffix {xs ys : List Char} (h : xs <:+ ys) :
    byteLength xs ≤ byteLength ys := by
  obtain ⟨front, rfl⟩ := h
  rw [byteLength_append]
  exact Nat.le_add_left _ _

theorem length_le_byteLength (cs : List Char) : cs.length ≤ byteLength cs := by
  induction cs with
  | nil => exact Nat.le_refl _
  | cons c cs ih =>
      have hc := c.utf8Size_pos
      rw [byteLength_cons, List.length_cons]
      omega

/-- Characters of one byte each. -/
theorem byteLength_of_ascii {cs : List Char} (h : ∀ c ∈ cs, c.utf8Size = 1) :
    byteLength cs = cs.length := by
  induction cs with
  | nil => rfl
  | cons c cs ih =>
      obtain ⟨hc, hcs⟩ := List.forall_mem_cons.mp h
      rw [byteLength_cons, hc, ih hcs, List.length_cons, Nat.add_comm]

theorem utf8ByteSize_ofList (cs : List Char) : (String.ofList cs).utf8ByteSize = byteLength cs := by
  induction cs with
  | nil => rfl
  | cons c cs ih =>
      rw [String.ofList_cons, String.utf8ByteSize_append, String.utf8ByteSize_singleton, ih,
        byteLength_cons]

/-- A number of at most `k` digits has at most `k` bytes. -/
theorem utf8ByteSize_toString_le {n k : Nat} (hk : 0 < k) (hn : n < 10 ^ k) :
    (toString n).utf8ByteSize ≤ k := by
  have hlength : (Nat.toDigits 10 n).length ≤ k :=
    (Nat.length_toDigits_le_iff (by decide) hk).mpr hn
  have hascii : ∀ c ∈ Nat.toDigits 10 n, c.utf8Size = 1 := by
    intro c hc
    have hdigit := Nat.isDigit_of_mem_toDigits (by decide) (by decide) hc
    have hnine := (Char.isDigit_iff_toNat.mp hdigit).2
    exact Char.utf8Size_eq_one_iff.mpr (UInt32.le_iff_toNat_le.mpr (hnine.trans (by decide)))
  have hbytes : (toString n).utf8ByteSize = byteLength (Nat.toDigits 10 n) :=
    utf8ByteSize_ofList (Nat.toDigits 10 n)
  rw [hbytes, byteLength_of_ascii hascii]
  exact hlength

/-! ### Slices -/

/-- The text before and from byte `n` on; `none` where `n` is not on a boundary. -/
def splitAtByte : Nat → List Char → Option (List Char × List Char)
  | 0, cs => some ([], cs)
  | _ + 1, [] => none
  | n + 1, c :: cs =>
      if c.utf8Size ≤ n + 1 then
        (splitAtByte (n + 1 - c.utf8Size) cs).map fun parts => (c :: parts.1, parts.2)
      else none

/-- `&s[start..]`. -/
def sliceFrom (start : Nat) (s : List Char) : Option (List Char) :=
  (splitAtByte start s).map Prod.snd

/-- `&s[start..stop]`. -/
def slice (start stop : Nat) (s : List Char) : Option (List Char) :=
  if start ≤ stop then
    (sliceFrom start s).bind fun rest => (splitAtByte (stop - start) rest).map Prod.fst
  else none

/-- `str::is_char_boundary`. -/
def isCharBoundary (n : Nat) (s : List Char) : Bool := (splitAtByte n s).isSome

/-- `String::truncate`: a text that ends before the byte stays. -/
def truncate (n : Nat) (s : List Char) : Option (List Char) :=
  if n ≤ byteLength s then (splitAtByte n s).map Prod.fst else some s

theorem splitAtByte_append (xs ys : List Char) :
    splitAtByte (byteLength xs) (xs ++ ys) = some (xs, ys) := by
  induction xs with
  | nil => exact splitAtByte.eq_1 ys
  | cons c xs ih =>
      have hpos := c.utf8Size_pos
      obtain ⟨n, hn⟩ : ∃ n, c.utf8Size + byteLength xs = n + 1 :=
        ⟨c.utf8Size + byteLength xs - 1, by omega⟩
      have hrest : n + 1 - c.utf8Size = byteLength xs := by omega
      rw [byteLength_cons, hn, List.cons_append, splitAtByte, if_pos (by omega), hrest, ih]
      rfl

/-- A boundary cuts the text in two, at its byte. -/
theorem splitAtByte_eq_some {n : Nat} {s xs ys : List Char} (h : splitAtByte n s = some (xs, ys)) :
    s = xs ++ ys ∧ byteLength xs = n := by
  induction n, s using splitAtByte.induct generalizing xs with
  | case1 cs =>
      rw [splitAtByte] at h
      obtain ⟨rfl, rfl⟩ := Prod.mk.inj (Option.some.inj h)
      exact ⟨rfl, rfl⟩
  | case2 n => cases h
  | case3 n c cs hle ih =>
      rw [splitAtByte, if_pos hle, Option.map_eq_some_iff] at h
      obtain ⟨⟨front, behind⟩, hparts, hcons⟩ := h
      obtain ⟨rfl, rfl⟩ := Prod.mk.inj hcons
      obtain ⟨rfl, hbytes⟩ := ih hparts
      refine ⟨rfl, ?_⟩
      rw [byteLength_cons, hbytes]
      omega
  | case4 n c cs hle =>
      rw [splitAtByte, if_neg hle] at h
      cases h

theorem isCharBoundary_iff {n : Nat} {s : List Char} :
    isCharBoundary n s = true ↔ ∃ xs ys, s = xs ++ ys ∧ byteLength xs = n := by
  constructor
  · intro h
    obtain ⟨⟨xs, ys⟩, hparts⟩ := Option.isSome_iff_exists.mp h
    exact ⟨xs, ys, splitAtByte_eq_some hparts⟩
  · rintro ⟨xs, ys, rfl, rfl⟩
    rw [isCharBoundary, splitAtByte_append]
    rfl

/-- There is no boundary inside a character. -/
theorem not_isCharBoundary_within {xs ys : List Char} {c : Char} {n : Nat}
    (hfrom : byteLength xs < n) (hto : n < byteLength xs + c.utf8Size) :
    isCharBoundary n (xs ++ c :: ys) = false := by
  refine Bool.eq_false_iff.mpr fun h => ?_
  obtain ⟨front, behind, hcut, hbytes⟩ := isCharBoundary_iff.mp h
  have hfront : front <+: xs ++ c :: ys := ⟨behind, hcut.symm⟩
  have hmid : byteLength (xs ++ [c]) = byteLength xs + c.utf8Size := by
    rw [byteLength_append, byteLength_cons]
    rfl
  have hxsc : xs ++ [c] <+: xs ++ c :: ys := ⟨ys, by simp⟩
  rcases List.prefix_or_prefix_of_prefix hfront hxsc with hle | hle
  · rcases List.prefix_concat_iff.mp hle with heq | hle
    · rw [heq, hmid] at hbytes
      omega
    · have hshort := byteLength_le_of_prefix hle
      omega
  · have hlong := byteLength_le_of_prefix hle
    omega

theorem sliceFrom_append (xs ys : List Char) :
    sliceFrom (byteLength xs) (xs ++ ys) = some ys := by
  rw [sliceFrom, splitAtByte_append]
  rfl

theorem slice_append (xs ys zs : List Char) :
    slice (byteLength xs) (byteLength xs + byteLength ys) (xs ++ (ys ++ zs)) = some ys := by
  rw [slice, if_pos (Nat.le_add_right _ _), sliceFrom_append, Option.bind_some,
    Nat.add_sub_cancel_left, splitAtByte_append]
  rfl

theorem le_byteLength_of_isCharBoundary {n : Nat} {s : List Char}
    (h : isCharBoundary n s = true) : n ≤ byteLength s := by
  obtain ⟨xs, ys, rfl, rfl⟩ := isCharBoundary_iff.mp h
  rw [byteLength_append]
  exact Nat.le_add_right _ _

/-- A slice is taken between two boundaries. -/
theorem slice_isSome_iff {start stop : Nat} {s : List Char} :
    (slice start stop s).isSome = true ↔
      start ≤ stop ∧ isCharBoundary start s = true ∧ isCharBoundary stop s = true := by
  constructor
  · intro h
    rw [slice] at h
    split at h
    · rename_i hle
      obtain ⟨piece, hpiece⟩ := Option.isSome_iff_exists.mp h
      obtain ⟨rest, hrest, hcut⟩ := Option.bind_eq_some_iff.mp hpiece
      obtain ⟨⟨xs, ys⟩, hstart, rfl⟩ := Option.map_eq_some_iff.mp hrest
      obtain ⟨⟨us, vs⟩, hstop, rfl⟩ := Option.map_eq_some_iff.mp hcut
      obtain ⟨rfl, hxs⟩ := splitAtByte_eq_some hstart
      obtain ⟨hys, hus⟩ := splitAtByte_eq_some hstop
      refine ⟨hle, isCharBoundary_iff.mpr ⟨xs, ys, rfl, hxs⟩, ?_⟩
      refine isCharBoundary_iff.mpr ⟨xs ++ us, vs, ?_, ?_⟩
      · rw [List.append_assoc, ← hys]
      · rw [byteLength_append, hxs, hus, Nat.add_sub_cancel' hle]
    · cases h
  · rintro ⟨hle, hstart, hstop⟩
    obtain ⟨xs, rest, rfl, rfl⟩ := isCharBoundary_iff.mp hstart
    obtain ⟨us, zs, hcut, rfl⟩ := isCharBoundary_iff.mp hstop
    obtain ⟨ys, rfl⟩ : xs <+: us := by
      rcases List.append_eq_append_iff.mp hcut with ⟨ys, rfl, -⟩ | ⟨ys, rfl, hrest⟩
      · exact List.prefix_append _ _
      · -- the two boundaries are the same
        have hnone : ys = [] := by
          rw [byteLength_append] at hle
          have hlength := length_le_byteLength ys
          exact List.length_eq_zero_iff.mp (by omega)
        exact ⟨[], by rw [hnone, List.append_nil, List.append_nil]⟩
    rw [List.append_assoc, List.append_cancel_left_eq] at hcut
    rw [hcut, byteLength_append, slice_append]
    rfl

theorem takeBytes_isPrefix (n : Nat) (cs : List Char) : takeBytes n cs <+: cs := by
  induction cs generalizing n with
  | nil => exact List.prefix_rfl
  | cons c cs ih =>
      rw [takeBytes]
      split
      · exact List.cons_prefix_cons.mpr ⟨rfl, ih _⟩
      · exact List.nil_prefix

/-- The fronts of a front of so many bytes. -/
theorem isPrefix_takeBytes_iff {n : Nat} {xs cs : List Char} :
    xs <+: takeBytes n cs ↔ xs <+: cs ∧ byteLength xs ≤ n := by
  induction cs generalizing n xs with
  | nil =>
      rw [takeBytes, List.prefix_nil]
      exact ⟨fun h => ⟨h, h ▸ Nat.zero_le n⟩, fun h => h.1⟩
  | cons c cs ih =>
      cases xs with
      | nil => exact ⟨fun _ => ⟨List.nil_prefix, Nat.zero_le n⟩, fun _ => List.nil_prefix⟩
      | cons x xs =>
          rw [takeBytes, byteLength_cons, List.cons_prefix_cons]
          split
          · rename_i hfits
            rw [List.cons_prefix_cons, ih]
            constructor
            · rintro ⟨rfl, hfront, hbytes⟩
              exact ⟨⟨rfl, hfront⟩, by omega⟩
            · rintro ⟨⟨rfl, hfront⟩, hbytes⟩
              exact ⟨rfl, hfront, by omega⟩
          · rename_i hlong
            refine ⟨fun h => absurd (List.prefix_nil.mp h) (List.cons_ne_nil _ _), ?_⟩
            rintro ⟨⟨rfl, -⟩, hbytes⟩
            omega

theorem byteLength_takeBytes_le (n : Nat) (cs : List Char) : byteLength (takeBytes n cs) ≤ n := by
  induction cs generalizing n with
  | nil => exact Nat.zero_le _
  | cons c cs ih =>
      rw [takeBytes]
      split
      · rename_i hfits
        have hrest := ih (n - c.utf8Size)
        rw [byteLength_cons]
        omega
      · exact Nat.zero_le _

theorem beforeLast_isPrefix {c : Char} {cs front : List Char} (h : beforeLast c cs = some front) :
    front <+: cs := by
  induction cs generalizing front with
  | nil => cases h
  | cons d cs ih =>
      rw [beforeLast] at h
      split at h
      · rename_i rest hrest
        obtain rfl := Option.some.inj h
        exact List.cons_prefix_cons.mpr ⟨rfl, ih hrest⟩
      · split at h
        · obtain rfl := Option.some.inj h
          exact List.nil_prefix
        · cases h

end ArmaraOS.Text
