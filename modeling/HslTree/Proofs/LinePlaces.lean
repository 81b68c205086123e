import HslTree.Text.Line
import HslTree.Proofs.ByteSlices
import Mathlib.Algebra.GroupWithZero.Nat
import Mathlib.Data.List.SplitBy
import Mathlib.Data.List.TakeWhile

/-! Lines, counted by the line feeds among the bytes of a text. The place of an offset is the line
from behind the last line feed in front of it up to the next one, also where the offset lies inside
a character. -/

namespace HslTree

def newlineByte : UInt8 := 10

/-- The lines of a text, each with the line feed that ends it. -/
def linesOf (text : List Char) : List (List Char) := text.splitBy fun c _ => c != '\n'

/-- Where the line of an offset starts: behind the last line feed in front of the offset. -/
def lineStart (bytes : List UInt8) (offset : Nat) : Nat :=
  offset - ((bytes.take offset).reverse.takeWhile (· != newlineByte)).length

/-- Where the line of an offset stops: behind the next line feed at or behind the offset, or at the
end if there is none. -/
def lineStop (bytes : List UInt8) (offset : Nat) : Nat :=
  match (bytes.drop offset).findIdx? (· == newlineByte) with
  | some i => offset + i + 1
  | none => bytes.length

section Bytes

variable {bytes rest : List UInt8} {n : Nat}

theorem count_take_before (hfree : newlineByte ∉ bytes) (hn : n ≤ bytes.length)
    (rest : List UInt8) :
    ((bytes ++ rest).take n).count newlineByte = 0 := by
  rw [List.take_append_of_le_length hn, List.count_eq_zero]
  exact fun hmem => hfree (List.mem_of_mem_take hmem)

theorem lineStart_before (hfree : newlineByte ∉ bytes) (hn : n ≤ bytes.length) (rest : List UInt8) :
    lineStart (bytes ++ rest) n = 0 := by
  have hall : ((bytes.take n).reverse).takeWhile (· != newlineByte) = (bytes.take n).reverse := by
    rw [List.takeWhile_eq_self_iff]
    intro b hb
    have hmem : b ∈ bytes := List.mem_of_mem_take (List.mem_reverse.mp hb)
    simpa using fun h : b = newlineByte => hfree (h ▸ hmem)
  rw [lineStart, List.take_append_of_le_length hn, hall, List.length_reverse, List.length_take]
  omega

theorem findIdx?_newlineByte_free (hfree : newlineByte ∉ bytes) :
    (bytes.drop n).findIdx? (· == newlineByte) = none := by
  rw [List.findIdx?_eq_none_iff]
  intro b hb
  have hmem : b ∈ bytes := List.mem_of_mem_drop hb
  simpa using fun h : b = newlineByte => hfree (h ▸ hmem)

theorem lineStop_last (hfree : newlineByte ∉ bytes) : lineStop bytes n = bytes.length := by
  rw [lineStop, findIdx?_newlineByte_free hfree]

theorem lineStop_before (hfree : newlineByte ∉ bytes) (hn : n ≤ bytes.length) :
    lineStop (bytes ++ newlineByte :: rest) n = bytes.length + 1 := by
  have hfind : ((bytes ++ newlineByte :: rest).drop n).findIdx? (· == newlineByte) =
      some (bytes.length - n) := by
    rw [List.drop_append_of_le_length hn, List.findIdx?_append, findIdx?_newlineByte_free hfree]
    simp [List.findIdx?_cons]
  rw [lineStop, hfind]
  change n + (bytes.length - n) + 1 = bytes.length + 1
  omega

theorem take_behind (bytes rest : List UInt8) (n : Nat) :
    (bytes ++ newlineByte :: rest).take (bytes.length + 1 + n) =
      bytes ++ newlineByte :: rest.take n := by
  rw [Nat.add_assoc, List.take_length_add_append, Nat.add_comm 1 n, List.take_succ_cons]

theorem count_take_behind (hfree : newlineByte ∉ bytes) (rest : List UInt8) (n : Nat) :
    ((bytes ++ newlineByte :: rest).take (bytes.length + 1 + n)).count newlineByte =
      1 + (rest.take n).count newlineByte := by
  rw [take_behind, List.count_append, List.count_eq_zero.mpr hfree, List.count_cons_self]
  omega

theorem lineStart_behind (bytes : List UInt8) (hn : n ≤ rest.length) :
    lineStart (bytes ++ newlineByte :: rest) (bytes.length + 1 + n) =
      bytes.length + 1 + lineStart rest n := by
  -- Going back from the offset, the line feed behind `bytes` is passed by neither walk.
  have hwalk : (bytes ++ newlineByte :: rest.take n).reverse.takeWhile (· != newlineByte) =
      (rest.take n).reverse.takeWhile (· != newlineByte) := by
    rw [List.reverse_append, List.reverse_cons, List.append_assoc, List.takeWhile_append]
    split
    · rename_i hall
      have hwhole : (rest.take n).reverse.takeWhile (· != newlineByte) = (rest.take n).reverse :=
        (List.takeWhile_prefix _).eq_of_length hall
      simp [hwhole]
    · rfl
  have hle := (List.takeWhile_prefix (l := (rest.take n).reverse) (· != newlineByte)).length_le
  rw [List.length_reverse, List.length_take] at hle
  rw [lineStart, take_behind, hwalk, lineStart]
  omega

theorem lineStop_behind (bytes rest : List UInt8) (n : Nat) :
    lineStop (bytes ++ newlineByte :: rest) (bytes.length + 1 + n) =
      bytes.length + 1 + lineStop rest n := by
  have hdrop : (bytes ++ newlineByte :: rest).drop (bytes.length + 1 + n) = rest.drop n := by
    rw [Nat.add_assoc, List.drop_length_add_append, Nat.add_comm 1 n, List.drop_succ_cons]
  rw [lineStop, hdrop, lineStop]
  split
  · omega
  · rw [List.length_append, List.length_cons]
    omega

end Bytes

section Texts

variable {body rest text : List Char}

@[simp]
theorem utf8Bytes_append (cs ds : List Char) :
    utf8Bytes (cs ++ ds) = utf8Bytes cs ++ utf8Bytes ds := List.flatMap_append

theorem length_utf8Bytes (text : List Char) : (utf8Bytes text).length = byteLength text := by
  induction text with
  | nil => rfl
  | cons c cs ih =>
    have hc := String.length_utf8EncodeChar c
    rw [utf8Bytes] at ih
    rw [utf8Bytes, List.flatMap_cons, List.length_append, hc, ih, byteLength]

theorem newlineByte_notMem_utf8EncodeChar {c : Char} (hc : c ≠ '\n') :
    newlineByte ∉ String.utf8EncodeChar c := by
  have hcode : c.val.toNat ≠ 10 := fun h => hc (Char.toNat_inj.mp h)
  -- All bytes of a character beyond ASCII lie beyond ASCII.
  have hbytes : ∀ b ∈ String.utf8EncodeChar c, b.toNat ≠ 10 := by
    intro b hb
    simp only [String.utf8EncodeChar] at hb
    split at hb
    · rw [List.mem_singleton.mp hb, UInt8.toNat_ofNat']
      omega
    · split at hb
      · simp only [List.mem_cons, List.not_mem_nil, or_false] at hb
        rcases hb with rfl | rfl <;> rw [UInt8.toNat_ofNat'] <;> omega
      · split at hb
        · simp only [List.mem_cons, List.not_mem_nil, or_false] at hb
          rcases hb with rfl | rfl | rfl <;> rw [UInt8.toNat_ofNat'] <;> omega
        · simp only [List.mem_cons, List.not_mem_nil, or_false] at hb
          rcases hb with rfl | rfl | rfl | rfl <;> rw [UInt8.toNat_ofNat'] <;> omega
  exact fun hmem => hbytes newlineByte hmem rfl

theorem newlineByte_notMem_utf8Bytes (h : '\n' ∉ text) : newlineByte ∉ utf8Bytes text := by
  intro hmem
  obtain ⟨c, hc, hbyte⟩ := List.mem_flatMap.mp hmem
  exact newlineByte_notMem_utf8EncodeChar (fun hfeed => h (hfeed ▸ hc)) hbyte

theorem utf8Bytes_line (body rest : List Char) :
    utf8Bytes (body ++ '\n' :: rest) = utf8Bytes body ++ newlineByte :: utf8Bytes rest := by
  rw [utf8Bytes_append]
  rfl

theorem byteLength_line (body rest : List Char) :
    byteLength (body ++ '\n' :: rest) = byteLength body + 1 + byteLength rest := by
  rw [byteLength_append, byteLength, Nat.add_assoc]
  rfl

/-- Texts are made of lines: a last one without a line feed, and others in front of it. -/
theorem line_induction {motive : List Char → Prop} (last : ∀ text, '\n' ∉ text → motive text)
    (line : ∀ body rest, '\n' ∉ body → motive rest → motive (body ++ '\n' :: rest))
    (text : List Char) : motive text := by
  induction hlength : text.length using Nat.strong_induction_on generalizing text with
  | _ length ih =>
    by_cases hfeed : '\n' ∈ text
    · obtain ⟨body, rest, rfl, hbody⟩ := List.eq_append_cons_of_mem hfeed
      refine line body rest hbody (ih rest.length ?_ rest rfl)
      rw [← hlength, List.length_append, List.length_cons]
      omega
    · exact last text hfeed

theorem linesOf_line (h : '\n' ∉ body) :
    linesOf (body ++ '\n' :: rest) = (body ++ ['\n']) :: linesOf rest := by
  have hchain : (body ++ ['\n']).IsChain fun c _ => (c != '\n') = true := by
    induction body with
    | nil => exact .singleton _
    | cons c cs ih =>
      rw [List.mem_cons, not_or] at h
      have hc : (c != '\n') = true := by simpa using Ne.symm h.1
      exact List.isChain_cons.mpr ⟨fun _ _ => hc, ih h.2⟩
  have hsplit : (body ++ ['\n'] ++ rest).splitBy (fun c _ => c != '\n') =
      (body ++ ['\n']).splitBy _ ++ rest.splitBy _ := List.splitBy_append (by simp)
  rw [List.append_cons, linesOf, hsplit, List.splitBy_of_isChain (by simp) hchain]
  rfl

theorem firstLine_last (h : '\n' ∉ text) : firstLine text = (text, []) := by
  induction text with
  | nil => rfl
  | cons c cs ih =>
    rw [List.mem_cons, not_or] at h
    rw [firstLine, if_neg (Ne.symm h.1), ih h.2]

theorem firstLine_line (h : '\n' ∉ body) (rest : List Char) :
    firstLine (body ++ '\n' :: rest) = (body ++ ['\n'], rest) := by
  induction body with
  | nil => rfl
  | cons c cs ih =>
    rw [List.mem_cons, not_or] at h
    rw [List.cons_append, firstLine, if_neg (Ne.symm h.1), ih h.2]
    rfl

section Walk

variable {number offset : Nat}

/-- On a last line without a line feed also the end of the text belongs to the line. -/
theorem placeFrom_last (h : '\n' ∉ text) (hoffset : offset ≤ byteLength text) :
    placeFrom number offset text = ⟨number, String.ofList text, offset⟩ := by
  cases text with
  | nil =>
    obtain rfl : offset = 0 := Nat.le_zero.mp hoffset
    rw [placeFrom]
  | cons c cs =>
    have hlast : (c :: cs).getLast? ≠ some '\n' := fun hlast => h (List.mem_of_getLast? hlast)
    rw [placeFrom]
    simp only [firstLine_last h]
    rw [if_pos]
    have hcases : offset < byteLength (c :: cs) ∨ offset = byteLength (c :: cs) := by omega
    simpa [hlast] using hcases

theorem placeFrom_line (h : '\n' ∉ body) :
    placeFrom number offset (body ++ '\n' :: rest) =
      if offset ≤ byteLength body then ⟨number, String.ofList (body ++ ['\n']), offset⟩
      else placeFrom (number + 1) (offset - (byteLength body + 1)) rest := by
  have hlength : byteLength (body ++ ['\n']) = byteLength body + 1 := byteLength_line body []
  have hline := firstLine_line h rest
  obtain ⟨c, cs, hcs⟩ : ∃ c cs, body ++ '\n' :: rest = c :: cs :=
    List.exists_cons_of_ne_nil (by simp)
  rw [hcs] at hline
  rw [hcs, placeFrom]
  simp only [hline, hlength]
  have hclosed : (rest.isEmpty && offset == byteLength body + 1 &&
      (body ++ ['\n']).getLast? != some '\n') = false := by simp
  rw [hclosed]
  by_cases hoffset : offset ≤ byteLength body
  · rw [if_pos hoffset, if_pos]
    simpa using Nat.lt_succ_of_le hoffset
  · rw [if_neg hoffset, if_neg]
    simp only [Bool.or_false, decide_eq_true_eq]
    omega

end Walk

end Texts

/-- A place that is the one of an offset in a text whose first line has the given number. -/
structure LinePlace.Locates (place : LinePlace) (first : Nat) (text : List Char) (offset : Nat) :
    Prop where
  number : place.number = first + ((utf8Bytes text).take offset).count newlineByte
  line : slice? text (lineStart (utf8Bytes text) offset) (lineStop (utf8Bytes text) offset) =
    some place.line.toList
  column : place.column = offset - lineStart (utf8Bytes text) offset
  lines : (((linesOf text).take (place.number - first)).map byteLength).sum + place.column = offset

section Locate

variable {first offset : Nat} {body rest text : List Char} {place : LinePlace}

theorem locates_last (h : '\n' ∉ text) (hoffset : offset ≤ byteLength text) :
    LinePlace.Locates ⟨first, String.ofList text, offset⟩ first text offset := by
  have hfree := newlineByte_notMem_utf8Bytes h
  rw [← length_utf8Bytes] at hoffset
  have hcount := count_take_before hfree hoffset []
  have hstart := lineStart_before hfree hoffset []
  rw [List.append_nil] at hcount hstart
  refine ⟨by rw [hcount, Nat.add_zero], ?_, by rw [hstart, Nat.sub_zero], by simp⟩
  rw [hstart, lineStop_last hfree, length_utf8Bytes, String.toList_ofList]
  simpa using slice?_zero_append text []

theorem locates_within (h : '\n' ∉ body) (hoffset : offset ≤ byteLength body) :
    LinePlace.Locates ⟨first, String.ofList (body ++ ['\n']), offset⟩ first
      (body ++ '\n' :: rest) offset := by
  have hfree := newlineByte_notMem_utf8Bytes h
  rw [← length_utf8Bytes] at hoffset
  have hstart := lineStart_before hfree hoffset (newlineByte :: utf8Bytes rest)
  have hlength : (utf8Bytes body).length + 1 = byteLength (body ++ ['\n']) := by
    rw [length_utf8Bytes, byteLength_line]
    rfl
  refine ⟨?_, ?_, ?_, by simp⟩ <;> rw [utf8Bytes_line]
  · rw [count_take_before hfree hoffset, Nat.add_zero]
  · rw [hstart, lineStop_before hfree hoffset, hlength, List.append_cons, String.toList_ofList]
    exact slice?_zero_append _ _
  · rw [hstart, Nat.sub_zero]

/-- A line in front of a text moves all places in the text. -/
theorem LinePlace.Locates.behind (h : '\n' ∉ body) (hoffset : offset ≤ byteLength rest)
    (hplace : place.Locates (first + 1) rest offset) :
    place.Locates first (body ++ '\n' :: rest) (byteLength body + 1 + offset) := by
  have hfree := newlineByte_notMem_utf8Bytes h
  rw [← length_utf8Bytes] at hoffset
  have hstart := lineStart_behind (utf8Bytes body) hoffset
  have hstop := lineStop_behind (utf8Bytes body) (utf8Bytes rest) offset
  have hcount := count_take_behind hfree (utf8Bytes rest) offset
  rw [length_utf8Bytes] at hstart hstop hcount
  refine ⟨?_, ?_, ?_, ?_⟩
  · rw [utf8Bytes_line, hcount, hplace.number, Nat.add_assoc]
  · rw [utf8Bytes_line, hstart, hstop]
    obtain ⟨before, after, htext, hfirst, hlast⟩ := exists_of_slice? hplace.line
    rw [hfirst, hlast, ← Nat.add_assoc, ← byteLength_line, htext, ← List.cons_append,
      ← List.append_assoc]
    exact slice?_append _ _ _
  · rw [utf8Bytes_line, hstart, hplace.column]
    omega
  · have hnumber : place.number - first = place.number - (first + 1) + 1 := by
      rw [hplace.number]
      omega
    have hline : byteLength (body ++ ['\n']) = byteLength body + 1 := byteLength_line body []
    have hlines := hplace.lines
    rw [hnumber, linesOf_line h, List.take_succ_cons, List.map_cons, List.sum_cons, hline]
    omega

theorem placeFrom_locates (first : Nat) (text : List Char) {offset : Nat}
    (hoffset : offset ≤ byteLength text) :
    (placeFrom first offset text).Locates first text offset := by
  induction text using line_induction generalizing first offset with
  | last text h =>
    rw [placeFrom_last h hoffset]
    exact locates_last h hoffset
  | line body rest h ih =>
    rw [placeFrom_line h]
    split
    · rename_i hbody
      exact locates_within h hbody
    · rename_i hbody
      rw [byteLength_line] at hoffset
      obtain ⟨n, rfl⟩ : ∃ n, offset = byteLength body + 1 + n :=
        Nat.exists_eq_add_of_le (Nat.lt_of_not_le hbody)
      rw [Nat.add_sub_cancel_left]
      exact (ih (first + 1) (by omega)).behind h (by omega)

end Locate

theorem placeOf?_eq_none_iff (source : String) (offset : Nat) :
    placeOf? source offset = none ↔ byteLength source.toList < offset := by
  unfold placeOf?
  split <;> simp_all

/-- Every offset up to the end of a source has a place, and no other has. -/
theorem placeOf?_exact (source : String) (offset : Nat) :
    (placeOf? source offset = none ↔ byteLength source.toList < offset) ∧
      (offset ≤ byteLength source.toList → ∃ place, placeOf? source offset = some place ∧
        place.Locates 1 source.toList offset) := by
  refine ⟨placeOf?_eq_none_iff source offset, fun hoffset => ?_⟩
  refine ⟨placeFrom 1 offset source.toList, ?_, placeFrom_locates 1 source.toList hoffset⟩
  rw [placeOf?, if_neg (Nat.not_lt.mpr hoffset)]

/-- The offset 8 lies inside the last character, behind an empty line. -/
theorem place_inside_character :
    (8 ≤ byteLength "a\né\n\n世".toList ∧
      placeOf? "a\né\n\n世" 8 = some ⟨4, "世", 2⟩) ∧
    LinePlace.Locates ⟨4, "世", 2⟩ 1 "a\né\n\n世".toList 8 := by
  have hoffset : 8 ≤ byteLength "a\né\n\n世".toList := by decide
  have hplace : placeOf? "a\né\n\n世" 8 = some ⟨4, "世", 2⟩ := by decide +kernel
  obtain ⟨place, hsome, hlocates⟩ := (placeOf?_exact "a\né\n\n世" 8).2 hoffset
  obtain rfl : place = ⟨4, "世", 2⟩ := Option.some.inj (hsome.symm.trans hplace)
  exact ⟨⟨hoffset, hplace⟩, hlocates⟩

end HslTree
