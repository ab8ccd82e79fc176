import ArmaraOS.Lib.Excision
import ArmaraOS.Lib.Lowercase

/-!
What is stripped from a tool result (`strip_tool_result_details` in `session_repair.rs`).

The markers are looked for in the lower case of the text, and the positions found there are used to
cut the text itself. The two agree where the lower case of what stands in front of a marker has as
many bytes as that text; then no cut panics and no marker is left.
-/

namespace ArmaraOS.Session

open ArmaraOS.Lib ArmaraOS.Lib.Framing ArmaraOS.Lib.Lowercase ArmaraOS.Text

/-! ### Long blobs -/

/-- `is_base64_char`. -/
def isBase64Char (c : Char) : Bool := c.isAlphanum || c == '+' || c == '/' || c == '='

/-- What is put for a run of base64 characters. -/
def base64Run (run : List Char) : List Char :=
  if 1000 < run.length then s!"[base64 blob, {run.length} chars removed]".toList else run

/-- `strip_base64_blobs`; `run` is the run of base64 characters that is read. -/
def stripBase64From : List Char → List Char → List Char
  | run, [] => base64Run run
  | run, c :: cs =>
      if isBase64Char c then stripBase64From (run ++ [c]) cs
      else base64Run run ++ c :: stripBase64From [] cs

/-- `strip_base64_blobs`. -/
def stripBase64Blobs (content : List Char) : List Char := stripBase64From [] content

/-! ### Injection markers -/

/-- `INJECTION_MARKERS`. -/
def injectionMarkers : List String :=
  ["<|system|>", "<|im_start|>", "<|im_end|>", "### SYSTEM:", "### System Prompt:", "[SYSTEM]",
    "<<SYS>>", "<</SYS>>", "IGNORE PREVIOUS INSTRUCTIONS", "Ignore all previous instructions",
    "ignore the above", "disregard previous"]

/-- What is put for a marker. -/
def markerRemoved : List Char := "[injection marker removed]".toList

/-- The `while let` loop, with `rest` for `result_lower[search_pos..]`; `none` where a slice panics.
Each turn moves on by the bytes of the marker, so `fuel` bounds the turns. -/
def removeLoop (marker markerLower result : List Char) :
    Nat → Nat → List Char → List Char → Option (List Char)
  | 0, _, _, _ => none
  | fuel + 1, searchPos, rest, newResult =>
      match cutAt markerLower rest with
      | none => (sliceFrom searchPos result).map (newResult ++ ·)
      | some (found, _) =>
          let absPos := searchPos + byteLength found
          (slice searchPos absPos result).bind fun piece =>
            (sliceFrom (byteLength found + byteLength marker) rest).bind fun rest =>
              removeLoop marker markerLower result fuel (absPos + byteLength marker) rest
                (newResult ++ piece ++ markerRemoved)

section Strip

variable (lc : Lowercase)

/-- One turn of the loop over the markers; `lower` is the lower case of the content. -/
def stripMarker (lower result marker : List Char) : Option (List Char) :=
  let markerLower := lc.toLowercase marker
  if occursIn markerLower lower then
    let resultLower := lc.toLowercase result
    removeLoop marker markerLower result (resultLower.length + 1) 0 resultLower []
  else some result

/-- `strip_injection_markers`. -/
def stripInjectionMarkers (content : List Char) : Option (List Char) :=
  (injectionMarkers.map String.toList).foldlM (stripMarker lc (lc.toLowercase content)) content

/-- What is put behind a text that is truncated. -/
def truncatedFrom (len : Nat) : List Char :=
  ("...[truncated from " ++ toString len ++ " chars]").toList

/-- `strip_tool_result_details`; `none` where it panics. -/
def stripToolResultDetails (content : List Char) : Option (List Char) :=
  (stripInjectionMarkers lc (stripBase64Blobs content)).map fun cleaned =>
    if byteLength cleaned ≤ 10000 then cleaned
    else takeBytes 10000 cleaned ++ truncatedFrom (byteLength cleaned)

end Strip

/-! ### The markers as patterns -/

/-- A marker in lower case. -/
def lowered (marker : String) : List Char := marker.toList.map Char.toLower

/-- The markers in lower case: plain patterns without a dot, none of which can share a part of what
is put for a marker. -/
theorem injectionMarkers_lowered :
    (∀ marker ∈ injectionMarkers, (lowered marker).all (fun c => c.toNat < 128) = true ∧
      'k' ∉ lowered marker ∧ (lowered marker).getLast? ≠ some 'i' ∧ lowered marker ≠ [] ∧
      '.' ∉ lowered marker ∧ Foreign (markerRemoved.map Char.toLower) (lowered marker)) ∧
    markerRemoved.all (fun c => c.toNat < 128) = true := by
  decide +kernel

theorem plain_lowered {marker : String} (h : marker ∈ injectionMarkers) :
    Plain (lowered marker) := by
  obtain ⟨hascii, hk, hi, -⟩ := injectionMarkers_lowered.1 marker h
  exact ⟨by simpa using hascii, hk, hi⟩

theorem lowered_ne {marker : String} (h : marker ∈ injectionMarkers) : lowered marker ≠ [] := by
  obtain ⟨-, -, -, hne, -⟩ := injectionMarkers_lowered.1 marker h
  exact hne

theorem dot_notMem_lowered {marker : String} (h : marker ∈ injectionMarkers) :
    '.' ∉ lowered marker := by
  obtain ⟨-, -, -, -, hdot, -⟩ := injectionMarkers_lowered.1 marker h
  exact hdot

theorem foreign_lowered {marker : String} (h : marker ∈ injectionMarkers) :
    Foreign (markerRemoved.map Char.toLower) (lowered marker) := by
  obtain ⟨-, -, -, -, -, hforeign⟩ := injectionMarkers_lowered.1 marker h
  exact hforeign

variable {lc : Lowercase}

/-! ### Removing one marker -/

section Marker

variable {lc : Lowercase}

/-- In front of each occurrence of the pattern, the lower case has as many bytes as the text. -/
def AlignedAt (lc : Lowercase) (pat text : List Char) : Prop :=
  ∀ k, pat <+: (text.drop k).map Char.toLower → lc.drift (text.take k) = 0

theorem AlignedAt.behind {pat front back : List Char} (h : AlignedAt lc pat (front ++ back))
    (hfront : lc.drift front = 0) : AlignedAt lc pat back := by
  intro k hk
  have hall := h (front.length + k) (by rwa [← List.drop_drop, List.drop_left])
  rwa [List.take_length_add_append, drift_append, hfront, Int.zero_add] at hall

/-- **One turn.** The first occurrence is replaced, and the loop goes on behind it, where the two
texts are apart by as many bytes as before. -/
theorem removeLoop_found {marker pat : List Char} (hplain : Plain pat) (hne : pat ≠ [])
    (hmarker : marker.map Char.toLower = pat) {done front found back : List Char}
    (hfront : lc.drift front = 0) (hfound : found.map Char.toLower = pat)
    (hfirst : ∀ i < front.length, ¬ pat <+: ((front ++ (found ++ back)).drop i).map Char.toLower)
    (fuel : Nat) (newResult : List Char) :
    removeLoop marker pat (done ++ (front ++ (found ++ back))) (fuel + 1) (byteLength done)
        (lc.lowerIn done (front ++ (found ++ back)) []) newResult =
      removeLoop marker pat (done ++ (front ++ (found ++ back))) fuel
        (byteLength (done ++ front ++ found)) (lc.lowerIn (done ++ front ++ found) back [])
        (newResult ++ front ++ markerRemoved) := by
  have hstart : pat <+: (found ++ back).map Char.toLower := by
    rw [List.map_append, hfound]
    exact List.prefix_append _ _
  have hbytes : byteLength (lc.lowerIn done front (found ++ back ++ [])) = byteLength front := by
    have hlength := byteLength_lowerIn lc done front (found ++ back ++ [])
    omega
  have hpat : byteLength pat = byteLength marker := (byteLength_found hmarker hplain.ascii).symm
  have hsame : byteLength found = byteLength marker :=
    (byteLength_found hfound hplain.ascii).trans hpat
  have hrest : sliceFrom (byteLength front + byteLength marker)
      (lc.lowerIn done (front ++ (found ++ back)) []) =
      some (lc.lowerIn (done ++ front ++ found) back []) := by
    rw [hplain.lowerIn_found hfound, ← hbytes, ← hpat, ← byteLength_append, sliceFrom_append]
  have hpos : byteLength done + byteLength front + byteLength marker =
      byteLength (done ++ front ++ found) := by
    rw [byteLength_append, byteLength_append, hsame]
  rw [removeLoop, hplain.cutAt_lowerIn lc hne done [] hstart hfirst]
  dsimp only
  rw [hbytes, slice_append, Option.bind_some, hrest, Option.bind_some, hpos]

/-- **The last turn.** What has no occurrence is kept. -/
theorem removeLoop_plain {marker pat done todo : List Char} (hplain : Plain pat) (hne : pat ≠ [])
    (hgone : ¬ pat <:+: todo.map Char.toLower) (fuel : Nat) (newResult : List Char) :
    removeLoop marker pat (done ++ todo) (fuel + 1) (byteLength done)
        (lc.lowerIn done todo []) newResult = some (newResult ++ todo) := by
  have hcut : cutAt pat (lc.lowerIn done todo []) = none := by
    rw [cutAt_eq_none_iff, hplain.infix_lowerIn_iff lc hne]
    exact hgone
  rw [removeLoop, hcut]
  dsimp only
  rw [sliceFrom_append, Option.map_some]

/-- **The loop.** Where the text is aligned at a marker, its occurrences are replaced, and no slice
panics. -/
theorem removeLoop_excised {marker pat result : List Char} (hplain : Plain pat) (hne : pat ≠ [])
    (hmarker : marker.map Char.toLower = pat) {fuel : Nat} {done todo newResult : List Char}
    (hresult : result = done ++ todo) (haligned : AlignedAt lc pat todo)
    (hfuel : (lc.lowerIn done todo []).length < fuel) :
    ∃ out, removeLoop marker pat result fuel (byteLength done) (lc.lowerIn done todo []) newResult =
        some (newResult ++ out) ∧
      Excised Char.toLower pat markerRemoved todo out := by
  induction fuel generalizing done todo newResult with
  | zero => exact absurd hfuel (Nat.not_lt_zero _)
  | succ fuel ih =>
      by_cases hoccurs : pat <:+: todo.map Char.toLower
      · obtain ⟨front, found, back, rfl, hfound, hfirst⟩ := exists_found hoccurs
        have hdrift : lc.drift front = 0 := by
          have hfront := haligned front.length
          rw [List.drop_left, List.take_left, List.map_append, hfound] at hfront
          exact hfront (List.prefix_append _ _)
        have hpassed : lc.drift found = 0 :=
          drift_ascii (ascii_of_map_toLower hfound hplain.ascii)
        have hback : AlignedAt lc pat back := (haligned.behind hdrift).behind hpassed
        have hshorter : (lc.lowerIn (done ++ front ++ found) back []).length < fuel := by
          have hpos := List.length_pos_iff.mpr hne
          rw [hplain.lowerIn_found hfound, List.length_append, List.length_append] at hfuel
          omega
        obtain ⟨out, hout, hexcised⟩ := @ih (done ++ front ++ found) back
          (newResult ++ front ++ markerRemoved) (by simp only [hresult, List.append_assoc])
          hback hshorter
        refine ⟨front ++ (markerRemoved ++ out), ?_, .found hfound hfirst hexcised⟩
        rw [hresult, removeLoop_found hplain hne hmarker hdrift hfound hfirst, ← hresult, hout]
        simp only [List.append_assoc]
      · rw [hresult]
        exact ⟨todo, removeLoop_plain hplain hne hoccurs fuel newResult, .plain hoccurs⟩

/-! ### Removing all markers -/

variable (lc) in
/-- Each occurrence of a marker in `out` comes from one in `text`, behind text of the same drift. -/
def ComesFrom (text out : List Char) : Prop :=
  ∀ marker ∈ injectionMarkers, ∀ k, lowered marker <+: (out.drop k).map Char.toLower →
    ∃ k', lowered marker <+: (text.drop k').map Char.toLower ∧
      lc.drift (text.take k') = lc.drift (out.take k)

theorem ComesFrom.refl (text : List Char) : ComesFrom lc text text := fun _ _ k hk => ⟨k, hk, rfl⟩

theorem ComesFrom.trans {text mid out : List Char} (h : ComesFrom lc text mid)
    (h' : ComesFrom lc mid out) : ComesFrom lc text out := by
  intro marker hmarker k hk
  obtain ⟨k', hk', hdrift'⟩ := h' marker hmarker k hk
  obtain ⟨k'', hk'', hdrift''⟩ := h marker hmarker k' hk'
  exact ⟨k'', hk'', hdrift''.trans hdrift'⟩

theorem ComesFrom.not_infix {text out : List Char} (h : ComesFrom lc text out) {marker : String}
    (hmarker : marker ∈ injectionMarkers) (hgone : ¬ lowered marker <:+: text.map Char.toLower) :
    ¬ lowered marker <:+: out.map Char.toLower := by
  simp only [infix_iff_exists_drop, ← List.map_drop] at hgone ⊢
  rintro ⟨k, hk⟩
  obtain ⟨k', hk', -⟩ := h marker hmarker k hk
  exact hgone ⟨k', hk'⟩

variable (lc) in
/-- Every marker is found behind text whose lower case has as many bytes as the text. -/
def MarkersAligned (text : List Char) : Prop :=
  ∀ marker ∈ injectionMarkers, AlignedAt lc (lowered marker) text

theorem MarkersAligned.of_comesFrom {text out : List Char} (h : MarkersAligned lc text)
    (hout : ComesFrom lc text out) : MarkersAligned lc out := by
  intro marker hmarker k hk
  obtain ⟨k', hk', hdrift⟩ := hout marker hmarker k hk
  rw [← hdrift]
  exact h marker hmarker k' hk'

theorem excised_comesFrom {marker : String} (hmarker : marker ∈ injectionMarkers)
    {text out : List Char} (h : Excised Char.toLower (lowered marker) markerRemoved text out) :
    ComesFrom lc text out := by
  intro other hother k hk
  have hput : lc.drift markerRemoved = 0 :=
    drift_ascii (by simpa using injectionMarkers_lowered.2)
  have hgone : ∀ found : List Char, found.map Char.toLower = lowered marker →
      (found.map lc.growth).sum = 0 := fun found hfound =>
    drift_ascii (ascii_of_map_toLower hfound (plain_lowered hmarker).ascii)
  exact h.exists_start (foreign_lowered hother) hput hgone hk

/-- **One marker.** It is removed without a panic, and no other one arises. -/
theorem stripMarker_eq_some {content result : List Char} {marker : String}
    (hmarker : marker ∈ injectionMarkers) (hcontent : MarkersAligned lc content)
    (hfrom : ComesFrom lc content result) :
    ∃ out, stripMarker lc (lc.toLowercase content) result marker.toList = some out ∧
      ComesFrom lc result out ∧ ¬ lowered marker <:+: out.map Char.toLower := by
  have hplain := plain_lowered hmarker
  have hne := lowered_ne hmarker
  have hlower : lc.toLowercase marker.toList = lowered marker :=
    lowerIn_ascii (ascii_of_map_toLower rfl hplain.ascii)
  have hthere := hplain.infix_lowerIn_iff lc hne [] content []
  rw [← toLowercase, ← occursIn_iff] at hthere
  rw [stripMarker, hlower]
  dsimp only
  by_cases hoccurs : lowered marker <:+: content.map Char.toLower
  · have haligned := hcontent.of_comesFrom hfrom marker hmarker
    obtain ⟨out, hout, hexcised⟩ := @removeLoop_excised lc marker.toList _ result hplain hne rfl
      ((lc.toLowercase result).length + 1) [] result [] rfl haligned (Nat.lt_succ_self _)
    rw [if_pos (hthere.mpr hoccurs)]
    refine ⟨out, hout, excised_comesFrom hmarker hexcised, ?_⟩
    exact hexcised.not_infix hne (foreign_lowered hmarker)
  · rw [if_neg (mt hthere.mp hoccurs)]
    exact ⟨result, rfl, .refl result, hfrom.not_infix hmarker hoccurs⟩

/-- **All markers.** -/
theorem foldlM_stripMarker {content : List Char} (hcontent : MarkersAligned lc content)
    {markers : List String} (hmarkers : ∀ marker ∈ markers, marker ∈ injectionMarkers)
    {result : List Char} (hfrom : ComesFrom lc content result) :
    ∃ out, (markers.map String.toList).foldlM (stripMarker lc (lc.toLowercase content)) result =
        some out ∧
      ComesFrom lc result out ∧ ∀ marker ∈ markers, ¬ lowered marker <:+: out.map Char.toLower := by
  induction markers generalizing result with
  | nil => exact ⟨result, rfl, .refl result, by simp⟩
  | cons marker markers ih =>
      obtain ⟨hmarker, hrest⟩ := List.forall_mem_cons.mp hmarkers
      obtain ⟨mid, hmid, hcomes, hgone⟩ := stripMarker_eq_some hmarker hcontent hfrom
      obtain ⟨out, hout, hcomes', hgone'⟩ := ih hrest (hfrom.trans hcomes)
      refine ⟨out, ?_, hcomes.trans hcomes', List.forall_mem_cons.mpr ⟨?_, hgone'⟩⟩
      · rw [List.map_cons, List.foldlM_cons, hmid]
        exact hout
      · exact hcomes'.not_infix hmarker hgone

/-! ### The truncated text -/

theorem toLower_of_isDigit {c : Char} (h : c.isDigit = true) : c.toLower = c := by
  refine dif_neg fun hupper => ?_
  have hA : 'A'.toNat ≤ c.toNat := UInt32.le_iff_toNat_le.mp hupper.1
  have h9 := (Char.isDigit_iff_toNat.mp h).2
  exact absurd (hA.trans h9) (by decide)

/-- A number between two texts. -/
theorem toList_number (front behind : String) (len : Nat) :
    (front ++ toString len ++ behind).toList =
      front.toList ++ (Nat.toDigits 10 len ++ behind.toList) := by
  have hlen : (toString len).toList = Nat.toDigits 10 len := String.toList_ofList
  rw [String.toList_append, String.toList_append, hlen, List.append_assoc]

theorem not_mem_number {front behind : List Char} {c : Char} (hfront : c ∉ front.map Char.toLower)
    (hbehind : c ∉ behind.map Char.toLower) (hc : c.isDigit = false) (len : Nat) :
    c ∉ (front ++ (Nat.toDigits 10 len ++ behind)).map Char.toLower := by
  rw [List.map_append, List.map_append, List.mem_append, List.mem_append]
  rintro (hin | hin | hin)
  · exact hfront hin
  · obtain ⟨d, hd, rfl⟩ := List.mem_map.mp hin
    have hdigit := Nat.isDigit_of_mem_toDigits (by decide) (by decide) hd
    rw [toLower_of_isDigit hdigit, hdigit] at hc
    exact Bool.false_ne_true hc.symm
  · exact hbehind hin

/-- What stands in the note on the truncation before the length, after its first dot. -/
def truncatedFront : List Char := "..[truncated from ".toList

/-- What stands in it behind the length. -/
def truncatedBehind : List Char := " chars]".toList

theorem truncatedFrom_eq (len : Nat) :
    truncatedFrom len = '.' :: (truncatedFront ++ (Nat.toDigits 10 len ++ truncatedBehind)) := by
  have hfront : "...[truncated from ".toList = '.' :: truncatedFront := by decide +kernel
  rw [truncatedFrom, toList_number, hfront, List.cons_append]
  rfl

/-- Every marker has a character that the note on the truncation has not. -/
theorem exists_not_mem_truncated {marker : String} (hmarker : marker ∈ injectionMarkers)
    (len : Nat) : ∃ c ∈ lowered marker,
      c ∉ (truncatedFront ++ (Nat.toDigits 10 len ++ truncatedBehind)).map Char.toLower := by
  have hall : ∀ marker ∈ injectionMarkers, (lowered marker).any (fun c =>
      c ∉ truncatedFront.map Char.toLower ∧ c ∉ truncatedBehind.map Char.toLower ∧
        c.isDigit = false) = true := by
    decide +kernel
  obtain ⟨c, hc, hnot⟩ := List.any_eq_true.mp (hall marker hmarker)
  obtain ⟨hfront, hbehind, hdigit⟩ := of_decide_eq_true hnot
  exact ⟨c, hc, not_mem_number hfront hbehind hdigit len⟩

/-- The note on the truncation brings no marker. -/
theorem not_infix_truncated {marker : String} (hmarker : marker ∈ injectionMarkers)
    {front : List Char} (hfront : ¬ lowered marker <:+: front.map Char.toLower) (len : Nat) :
    ¬ lowered marker <:+: (front ++ truncatedFrom len).map Char.toLower := by
  intro hin
  rw [truncatedFrom_eq, List.map_append, List.map_cons] at hin
  rcases infix_of_separator (dot_notMem_lowered hmarker) hin with hin | hin
  · exact hfront hin
  · obtain ⟨c, hc, hnot⟩ := exists_not_mem_truncated hmarker len
    exact hnot (hin.subset hc)

variable (lc) in
/-- A tool result is stripped without a panic, and has no marker in any case. -/
def Sanitised (content : List Char) : Prop :=
  ∃ out, stripToolResultDetails lc content = some out ∧
    ∀ marker ∈ injectionMarkers, ¬ lc.toLowercase marker.toList <:+: lc.toLowercase out

/-- For every content: it is stripped without a panic, and no marker is left, if in front of each
marker, blobs apart, the lower case of the text has as many bytes as the text. -/
theorem sanitised_of_aligned (lc : Lowercase) {content : List Char}
    (h : MarkersAligned lc (stripBase64Blobs content)) : Sanitised lc content := by
  obtain ⟨cleaned, hcleaned, -, hgone⟩ :=
    foldlM_stripMarker h (fun _ hmarker => hmarker) (.refl (stripBase64Blobs content))
  refine ⟨_, by rw [stripToolResultDetails, stripInjectionMarkers, hcleaned]; rfl, ?_⟩
  intro marker hmarker
  have hplain := plain_lowered hmarker
  have hlower : lc.toLowercase marker.toList = lowered marker :=
    lowerIn_ascii (ascii_of_map_toLower rfl hplain.ascii)
  rw [hlower, toLowercase, hplain.infix_lowerIn_iff lc (lowered_ne hmarker)]
  dsimp only
  split
  · exact hgone marker hmarker
  · refine not_infix_truncated hmarker (fun hin => hgone marker hmarker ?_) _
    exact hin.trans ((takeBytes_isPrefix 10000 cleaned).map Char.toLower).isInfix

/-- Text that has its length in lower case, character by character. -/
theorem markersAligned_of_growth {text : List Char} (h : ∀ c ∈ text, lc.growth c = 0) :
    MarkersAligned lc text :=
  fun _ _ _ _ => drift_eq_zero fun c hc => h c (List.mem_of_mem_take hc)

end Marker

/-! ### Letters whose lower case has another length -/

/-- The lower case of ASCII, the dotted capital I, the Kelvin sign and the A with a stroke; other
characters stay. -/
def fewLower (c : Char) : List Char :=
  if c = '\u0130' then ['i', '\u0307']
  else if c = '\u212A' then ['k']
  else if c = '\u023A' then ['\u2C65']
  else [c.toLower]

/-- Lower case with these letters. -/
def fewLowercase : Lowercase where
  char := fewLower
  finalSigma _ _ := false
  char_ne c := by
    simp only [fewLower]
    split_ifs <;> exact List.cons_ne_nil _ _
  ascii c hc := by
    have hne : ∀ d : Char, ¬ d.toNat < 128 → c ≠ d := fun d hd h => hd (h ▸ hc)
    rw [fewLower, if_neg (hne _ (by decide)), if_neg (hne _ (by decide)),
      if_neg (hne _ (by decide))]
  folded c hc d hd hascii := by
    simp only [fewLower] at hd ⊢
    split_ifs at hd ⊢ with hdotted hkelvin hstroke
    · exact .inr rfl
    · exact .inl rfl
    · obtain rfl := List.mem_singleton.mp hd
      exact absurd hascii (by decide)
    · obtain rfl := List.mem_singleton.mp hd
      rw [Lowercase.toLower_of_not_ascii (Nat.not_lt.mpr hc)] at hascii
      exact absurd hascii (Nat.not_lt.mpr hc)

theorem sanitised_of_aligned_accent : Sanitised fewLowercase "é<|SYSTEM|>x".toList := by
  have hstripped : stripBase64Blobs "é<|SYSTEM|>x".toList = "é<|SYSTEM|>x".toList := by
    decide +kernel
  have hgrowth : "é<|SYSTEM|>x".toList.all (fun c => fewLowercase.growth c = 0) = true := by
    decide +kernel
  refine sanitised_of_aligned fewLowercase (hstripped.symm ▸ markersAligned_of_growth ?_)
  exact fun c hc => of_decide_eq_true (List.all_eq_true.mp hgrowth c hc)

/-- Behind a dotted capital I, whose lower case is a byte longer, the marker at the end is cut at a
byte that the text does not have. -/
theorem not_sanitised_dotted : ¬ ∀ content, Sanitised fewLowercase content := by
  intro h
  obtain ⟨out, hout, -⟩ := h "\u0130<|system|>".toList
  have hnone : stripToolResultDetails fewLowercase "\u0130<|system|>".toList = none := by
    decide +kernel
  rw [hnone] at hout
  exact Option.some_ne_none out hout.symm

/-- Ten bytes too late, it is what follows the marker that is replaced. -/
example :
    stripToolResultDetails fewLowercase
        ((List.replicate 10 '\u023A').append "<|system|>0123456789".toList) =
      some ((List.replicate 10 '\u023A').append
        "<|system|>[injection marker removed]".toList) := by
  decide +kernel

end ArmaraOS.Session
