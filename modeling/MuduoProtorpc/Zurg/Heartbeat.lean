import Mathlib.Data.List.DropRight
import MuduoProtorpc.Foundation.Scanning
import MuduoProtorpc.Wire.RpcMessage

/-!
# `strip_stat`

A heartbeat of the slave carries `/proc/stat` (`examples/zurg/slave/Heartbeat.cc`). `strip_stat` is
to take the zeros off the end of its interrupt line. If there are none, it erases all that is behind
the line: the number of characters to erase is then -1, which is the largest `size_t`
(`stripStat_shortens_iff`).
-/

set_option autoImplicit false
set_option relaxedAutoImplicit false

namespace MuduoProtorpc.Zurg

open Foundation Ascii

/-! ### The code -/

/-- `while (p[-1] == '0' && p[-2] == ' ') p -= 2`, with `p` as an index. -/
def walkBack (text : Bytes) : ℕ → ℕ
  | 0 => 0
  | 1 => 1
  | p + 2 => if text[p + 1]? = some zero ∧ text[p]? = some space then walkBack text p else p + 2

/-- `std::string::erase`, from an index on. -/
def eraseFrom (text : Bytes) (pos len : ℕ) : Bytes :=
  text.take pos ++ text.drop (pos + len)

/-- `strip_stat`. It is undefined when the interrupt line does not end. -/
def stripStat (procStat : Bytes) : Option Bytes :=
  match strstr (bytes "\nintr ") procStat with
  | none => some procStat
  | some intr =>
    match strchr newline intr.tail with
    | none => none
    | some rest =>
      let nl := procStat.length - rest.length
      let p := walkBack procStat nl + 1
      -- the difference of the pointers is taken as a `size_t`
      some (eraseFrom procStat p (((nl : ℤ) - p) % 2 ^ 64).toNat)

theorem eraseFrom_append (front rest : Bytes) (len : ℕ) :
    eraseFrom (front ++ rest) front.length len = front ++ rest.drop len := by
  rw [eraseFrom, List.take_left, List.drop_length_add_append]

/-! ### The interrupt line -/

/-- Counters, each with a space before it. -/
def counterText (counters : List Bytes) : Bytes :=
  counters.flatMap fun counter ↦ space :: counter

/-- A counter is not empty, and has no space and no newline in it. -/
structure Counter (counter : Bytes) : Prop where
  ne_nil : counter ≠ []
  space_notMem : space ∉ counter
  newline_notMem : newline ∉ counter

/-- A text with its interrupt line, which is not the first line and is complete. -/
structure IntrLine (text before : Bytes) (counters : List Bytes) (after : Bytes) : Prop where
  text_eq : text = before ++ (bytes "\nintr" ++ (counterText counters ++ newline :: after))
  first : ¬ bytes "\nintr " <:+: before
  counters_ne_nil : counters ≠ []
  counters : ∀ counter ∈ counters, Counter counter

/-- The text with the zeros taken off the end of the line. A blank may be left there. -/
def Shortened (before : Bytes) (counters : List Bytes) (after stripped : Bytes) : Prop :=
  ∃ blanks ≤ 1, stripped = before ++ (bytes "\nintr" ++
    (counterText (counters.rdropWhile fun counter ↦ decide (counter = [zero])) ++
      (List.replicate blanks space ++ newline :: after)))

/-- What `strip_stat` is for: it only shortens the interrupt line, and leaves a text without one as
it is. -/
structure OnlyShortens (text : Bytes) : Prop where
  shortens : ∀ before counters after, IntrLine text before counters after →
    ∃ stripped, stripStat text = some stripped ∧ Shortened before counters after stripped
  unchanged : ¬ bytes "\nintr " <:+: text → stripStat text = some text

section Walk

variable {front rest : Bytes}

/-- A zero at the end is passed. -/
theorem walkBack_zero (front rest : Bytes) :
    walkBack (front ++ (space :: zero :: rest)) (front.length + 2) =
      walkBack (front ++ (space :: zero :: rest)) front.length := by
  rw [walkBack]
  simp

/-- The walk ends where there is no zero. -/
theorem walkBack_stop (rest : Bytes) (hfront : ¬ [space, zero] <:+ front) :
    walkBack (front ++ rest) front.length = front.length := by
  rcases List.eq_nil_or_concat front with rfl | ⟨before, last, rfl⟩
  · rfl
  · rcases List.eq_nil_or_concat before with rfl | ⟨before, previous, rfl⟩
    · rfl
    · simp only [List.concat_eq_append, List.append_assoc, List.cons_append, List.nil_append,
        List.length_append, List.length_cons, List.length_nil] at hfront ⊢
      rw [walkBack, if_neg]
      rintro ⟨hlast, hprevious⟩
      apply hfront
      simp at hlast hprevious
      rw [hlast, hprevious]
      exact List.suffix_append before _

theorem counterText_append (first second : List Bytes) :
    counterText (first ++ second) = counterText first ++ counterText second :=
  List.flatMap_append

/-- All zeros at the end are passed. -/
theorem walkBack_zeros (rest : Bytes) (hfront : ¬ [space, zero] <:+ front) (zeros : ℕ) :
    walkBack (front ++ (counterText (List.replicate zeros [zero]) ++ rest))
      (front ++ counterText (List.replicate zeros [zero])).length = front.length := by
  induction zeros generalizing rest with
  | zero => simpa [counterText] using walkBack_stop rest hfront
  | succ zeros ih =>
    have hlast : counterText (List.replicate (zeros + 1) [zero]) =
        counterText (List.replicate zeros [zero]) ++ [space, zero] := by
      rw [List.replicate_succ', counterText_append]
      rfl
    have htext : front ++ (counterText (List.replicate (zeros + 1) [zero]) ++ rest) =
        (front ++ counterText (List.replicate zeros [zero])) ++ (space :: zero :: rest) := by
      rw [hlast]
      simp
    have hlength : (front ++ counterText (List.replicate (zeros + 1) [zero])).length =
        (front ++ counterText (List.replicate zeros [zero])).length + 2 := by
      rw [hlast, ← List.append_assoc]
      exact List.length_append
    rw [htext, hlength, walkBack_zero, List.append_assoc]
    exact ih _

end Walk

section Strip

variable {text before after : Bytes} {counters : List Bytes} {counter : Bytes}

/-- A counter that is not zero is no zero at the end. -/
theorem not_suffix_counter (front : Bytes) (hcounter : Counter counter)
    (hzero : counter ≠ [zero]) : ¬ [space, zero] <:+ front ++ space :: counter := by
  rintro ⟨start, hstart⟩
  rcases List.eq_nil_or_concat counter with rfl | ⟨others, last, rfl⟩
  · exact hcounter.ne_nil rfl
  · rcases List.eq_nil_or_concat others with rfl | ⟨others, previous, rfl⟩
    · obtain ⟨-, hlast⟩ := List.append_inj' hstart rfl
      rw [List.cons_eq_cons] at hlast
      exact hzero hlast.2.symm
    · have hmem : previous ∈ (others.concat previous).concat last := by simp
      rw [List.concat_eq_append, List.concat_eq_append, List.append_assoc, ← List.cons_append,
        ← List.append_assoc] at hstart
      obtain ⟨-, hlast⟩ := List.append_inj' hstart rfl
      obtain ⟨rfl, -⟩ := List.cons_eq_cons.mp hlast
      exact hcounter.space_notMem hmem

/-- What is kept of the line has no zero at its end. -/
theorem IntrLine.not_suffix_kept (hline : IntrLine text before counters after) :
    ¬ [space, zero] <:+ before ++ (bytes "\nintr" ++
      counterText (counters.rdropWhile fun counter ↦ decide (counter = [zero]))) := by
  rcases List.eq_nil_or_concat (counters.rdropWhile fun counter ↦ decide (counter = [zero])) with
    hkept | ⟨others, last, hkept⟩
  · rw [hkept]
    rintro ⟨start, hstart⟩
    have hintr : before ++ (bytes "\nintr" ++ counterText []) =
        (before ++ bytes "\nin") ++ bytes "tr" := by
      rw [List.append_assoc]
      rfl
    obtain ⟨-, hlast⟩ := List.append_inj' (hstart.trans hintr) rfl
    exact absurd hlast (by decide)
  · have hmem : last ∈ counters := by
      apply (List.rdropWhile_prefix _ counters).subset
      rw [hkept]
      simp
    have hlast : last ≠ [zero] := by
      have hne : counters.rdropWhile (fun counter ↦ decide (counter = [zero])) ≠ [] := by
        rw [hkept]
        simp
      have hnot := List.rdropWhile_last_not _ counters hne
      simpa [hkept] using hnot
    rw [hkept, List.concat_eq_append, counterText_append, ← List.append_assoc, ← List.append_assoc]
    have hsingle : counterText [last] = space :: last := List.append_nil _
    rw [hsingle]
    exact not_suffix_counter _ (hline.counters last hmem) hlast

/-- The zeros at the end of the counters. -/
theorem exists_zeros (counters : List Bytes) : ∃ zeros, counters =
    (counters.rdropWhile fun counter ↦ decide (counter = [zero])) ++
      List.replicate zeros [zero] := by
  refine ⟨(counters.rtakeWhile fun counter ↦ decide (counter = [zero])).length, ?_⟩
  have hzeros : (counters.rtakeWhile fun counter ↦ decide (counter = [zero])) =
      List.replicate (counters.rtakeWhile fun counter ↦ decide (counter = [zero])).length
        [zero] := by
    apply List.eq_replicate_of_mem
    intro counter hcounter
    have hzero := List.mem_rtakeWhile_imp hcounter
    exact of_decide_eq_true hzero
  rw [← hzeros, List.rdropWhile_append_rtakeWhile]

/-- The search for the line. -/
theorem IntrLine.strstr_text (hline : IntrLine text before counters after) (hnul : nul ∉ text) :
    strstr (bytes "\nintr ") text =
      some (bytes "\nintr" ++ (counterText counters ++ newline :: after)) := by
  have hbefore : nul ∉ before := by
    intro hmem
    apply hnul
    rw [hline.text_eq]
    exact List.mem_append_left _ hmem
  obtain ⟨first, others, hcounters⟩ := List.exists_cons_of_ne_nil hline.counters_ne_nil
  have hintr : bytes "\nintr" ++ (counterText counters ++ newline :: after) =
      newline :: bytes "intr " ++ (first ++ counterText others ++ newline :: after) := by
    rw [hcounters]
    rfl
  rw [hline.text_eq, hintr]
  exact strstr_append _ (by decide) hline.first hbefore

/-- The search for the end of the line. -/
theorem IntrLine.strchr_rest (hline : IntrLine text before counters after) (hnul : nul ∉ text) :
    strchr newline (bytes "\nintr" ++ (counterText counters ++ newline :: after)).tail =
      some (newline :: after) := by
  have htail : (bytes "\nintr" ++ (counterText counters ++ newline :: after)).tail =
      bytes "intr" ++ counterText counters ++ newline :: after := by
    rw [List.append_assoc]
    rfl
  have hnewline : newline ∉ bytes "intr" ++ counterText counters := by
    rw [List.mem_append, not_or]
    refine ⟨by decide, fun hmem ↦ ?_⟩
    obtain ⟨counter, hcounter, hchar⟩ := List.mem_flatMap.mp hmem
    rcases List.mem_cons.mp hchar with heq | hin
    · exact absurd heq (by decide)
    · exact (hline.counters counter hcounter).newline_notMem hin
  have hlineNul : nul ∉ bytes "intr" ++ counterText counters := by
    intro hmem
    apply hnul
    rw [hline.text_eq, ← List.append_assoc (bytes "\nintr")]
    apply List.mem_append_right
    apply List.mem_append_left
    exact List.mem_cons_of_mem newline hmem
  rw [htail]
  exact strchr_append after hnewline hlineNul

/-- What `strip_stat` makes of a text with an interrupt line. -/
theorem IntrLine.stripStat_eq (hline : IntrLine text before counters after) (hnul : nul ∉ text)
    {kept : List Bytes} {zeros : ℕ} (hcounters : counters = kept ++ List.replicate zeros [zero])
    (hkept : ¬ [space, zero] <:+ before ++ (bytes "\nintr" ++ counterText kept)) :
    stripStat text = some (eraseFrom text
      ((before ++ (bytes "\nintr" ++ counterText kept)).length + 1)
      ((((before ++ (bytes "\nintr" ++ counterText counters)).length : ℤ) -
        ((before ++ (bytes "\nintr" ++ counterText kept)).length + 1 : ℕ)) % 2 ^ 64).toNat) := by
  have hintr := hline.strstr_text hnul
  have hrest := hline.strchr_rest hnul
  have hnl : text.length - (newline :: after).length =
      (before ++ (bytes "\nintr" ++ counterText counters)).length := by
    rw [hline.text_eq]
    simp only [List.length_append]
    omega
  have hwalk : walkBack text (before ++ (bytes "\nintr" ++ counterText counters)).length =
      (before ++ (bytes "\nintr" ++ counterText kept)).length := by
    have hzeros := walkBack_zeros (newline :: after) hkept zeros
    rw [hline.text_eq, hcounters, counterText_append]
    simpa only [List.append_assoc] using hzeros
  unfold stripStat
  simp only [hintr, hrest, hnl, hwalk]

/-- Counters that do not end in a zero are all kept. -/
theorem rdropWhile_of_last (hlast : counters.getLast? ≠ some [zero]) :
    (counters.rdropWhile fun counter ↦ decide (counter = [zero])) = counters := by
  rw [List.rdropWhile_eq_self_iff]
  intro hne hzero
  apply hlast
  rw [List.getLast?_eq_some_getLast hne]
  exact congrArg some (of_decide_eq_true hzero)

/-- If the counters do not end in a zero, what is behind the line is erased. -/
theorem IntrLine.stripStat_last (hline : IntrLine text before counters after) (hnul : nul ∉ text)
    (hlast : counters.getLast? ≠ some [zero]) :
    stripStat text = some (before ++ (bytes "\nintr" ++ (counterText counters ++
      newline :: after.drop (2 ^ 64 - 1)))) := by
  have hcounters : counters = counters ++ List.replicate 0 [zero] :=
    (List.append_nil counters).symm
  have hsuffix := hline.not_suffix_kept
  rw [rdropWhile_of_last hlast] at hsuffix
  have hlen : ((((before ++ (bytes "\nintr" ++ counterText counters)).length : ℤ) -
      ((before ++ (bytes "\nintr" ++ counterText counters)).length + 1 : ℕ)) % 2 ^ 64).toNat =
        2 ^ 64 - 1 := by
    omega
  have htext : text = before ++ (bytes "\nintr" ++ counterText counters) ++ [newline] ++ after := by
    rw [hline.text_eq]
    simp only [List.append_assoc, List.singleton_append]
  have herase := eraseFrom_append
    (before ++ (bytes "\nintr" ++ counterText counters) ++ [newline]) after (2 ^ 64 - 1)
  rw [← htext, List.length_append, List.length_singleton] at herase
  rw [hline.stripStat_eq hnul hcounters hsuffix, hlen, herase]
  simp only [List.append_assoc, List.singleton_append]

/-- If they do, the zeros are erased but for a space. -/
theorem IntrLine.stripStat_zeros (hline : IntrLine text before counters after) (hnul : nul ∉ text)
    (hsize : text.length < 2 ^ 63) (hlast : counters.getLast? = some [zero]) :
    stripStat text = some (before ++ (bytes "\nintr" ++
      (counterText (counters.rdropWhile fun counter ↦ decide (counter = [zero])) ++
        (List.replicate 1 space ++ newline :: after)))) := by
  have hsuffix := hline.not_suffix_kept
  obtain ⟨zeros, hcounters⟩ := exists_zeros counters
  have hnot := List.rdropWhile_last_not (fun counter ↦ decide (counter = [zero])) counters
  set kept := counters.rdropWhile fun counter ↦ decide (counter = [zero])
  cases zeros with
  | zero =>
    rw [List.replicate_zero, List.append_nil] at hcounters
    have hne : kept ≠ [] := by
      rw [← hcounters]
      exact hline.counters_ne_nil
    rw [hcounters, List.getLast?_eq_some_getLast hne] at hlast
    exact absurd (decide_eq_true (Option.some.inj hlast)) (hnot hne)
  | succ zeros =>
    set front := before ++ (bytes "\nintr" ++ counterText kept) with hfront
    set behind := counterText (List.replicate zeros [zero])
    have hline' : before ++ (bytes "\nintr" ++ counterText counters) =
        front ++ [space] ++ (zero :: behind) := by
      rw [hcounters, counterText_append, hfront]
      simp only [List.append_assoc]
      rfl
    have htext : text = front ++ [space] ++ ((zero :: behind) ++ newline :: after) := by
      rw [← List.append_assoc, ← hline', hline.text_eq]
      simp only [List.append_assoc]
    have hlen : ((((front ++ [space] ++ (zero :: behind)).length : ℤ) -
        (front.length + 1 : ℕ)) % 2 ^ 64).toNat = (zero :: behind).length := by
      rw [htext] at hsize
      simp only [List.length_append, List.length_cons, List.length_nil] at hsize ⊢
      omega
    have herase := eraseFrom_append (front ++ [space]) ((zero :: behind) ++ newline :: after)
      (zero :: behind).length
    rw [← htext, List.length_append, List.length_singleton, List.drop_left] at herase
    rw [hline.stripStat_eq hnul hcounters hsuffix, hline', hlen, herase, hfront]
    simp only [List.append_assoc]
    rfl

end Strip

/-- `strip_stat` does what it is for if and only if the counters end in a zero or nothing follows
the interrupt line. -/
theorem stripStat_shortens_iff {text : Bytes} (hnul : nul ∉ text) (hsize : text.length < 2 ^ 63) :
    OnlyShortens text ↔ ∀ before counters after, IntrLine text before counters after →
      counters.getLast? = some [zero] ∨ after = [] := by
  constructor
  · intro honly before counters after hline
    by_contra hneither
    rw [not_or] at hneither
    obtain ⟨stripped, hstripped, blanks, -, hshortened⟩ :=
      honly.shortens before counters after hline
    rw [hline.stripStat_last hnul hneither.1] at hstripped
    have hsame := (Option.some.inj hstripped).trans hshortened
    rw [rdropWhile_of_last hneither.1] at hsame
    have hlength := congrArg List.length hsame
    have hafter := List.length_pos_iff.mpr hneither.2
    simp only [List.length_append, List.length_cons, List.length_drop, List.length_replicate]
      at hlength
    omega
  · intro hcondition
    constructor
    · intro before counters after hline
      by_cases hlast : counters.getLast? = some [zero]
      · exact ⟨_, hline.stripStat_zeros hnul hsize hlast, 1, Nat.le_refl 1, rfl⟩
      · obtain rfl : after = [] := (hcondition before counters after hline).resolve_left hlast
        refine ⟨_, hline.stripStat_last hnul hlast, 0, Nat.zero_le 1, ?_⟩
        rw [rdropWhile_of_last hlast]
        rfl
    · intro hintr
      unfold stripStat
      rw [strstr_eq_none hintr]

/-- `cpu 1`, `intr 9 5 0 0` and `ctxt 7`. -/
def zerosText : Bytes :=
  bytes "cpu 1\nintr 9 5 0 0\nctxt 7\n"

/-- `cpu 1`, `intr 9 5` and `ctxt 7`. -/
def noZerosText : Bytes :=
  bytes "cpu 1\nintr 9 5\nctxt 7\n"

example : stripStat zerosText = some (bytes "cpu 1\nintr 9 5 \nctxt 7\n") := by
  decide +kernel

example : stripStat noZerosText = some (bytes "cpu 1\nintr 9 5\n") := by
  decide +kernel

theorem stripStat_shortens_zerosText : OnlyShortens zerosText ↔
    ∀ before counters after, IntrLine zerosText before counters after →
      counters.getLast? = some [zero] ∨ after = [] := by
  apply stripStat_shortens_iff
  · decide
  · decide

/-- The line behind the counters is lost. -/
theorem not_onlyShortens_noZerosText : ¬ ∀ text, nul ∉ text → text.length < 2 ^ 63 →
    OnlyShortens text := by
  intro hshortens
  have hcounters : ∀ counter ∈ [bytes "9", bytes "5"], Counter counter := by
    intro counter hcounter
    rcases List.mem_pair.mp hcounter with rfl | rfl
    · exact ⟨by decide, by decide, by decide⟩
    · exact ⟨by decide, by decide, by decide⟩
  have hline : IntrLine noZerosText (bytes "cpu 1") [bytes "9", bytes "5"] (bytes "ctxt 7\n") :=
    ⟨by decide, by decide, by decide, hcounters⟩
  obtain ⟨stripped, hstripped, blanks, -, hshortened⟩ :=
    (hshortens noZerosText (by decide) (by decide)).shortens _ _ _ hline
  have hnumber : 120 ∈ stripped := by
    rw [hshortened]
    apply List.mem_append_right
    apply List.mem_append_right
    apply List.mem_append_right
    apply List.mem_append_right
    exact List.mem_cons_of_mem _ (by decide)
  have hlost : stripStat noZerosText = some (bytes "cpu 1\nintr 9 5\n") := by
    decide +kernel
  rw [← Option.some.inj (hlost.symm.trans hstripped)] at hnumber
  exact absurd hnumber (by decide)

end MuduoProtorpc.Zurg
