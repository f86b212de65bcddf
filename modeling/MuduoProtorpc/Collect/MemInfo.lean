import Mathlib.Data.BitVec
import Mathlib.Data.Nat.Find
import MuduoProtorpc.Foundation.Scanning
import MuduoProtorpc.Wire.RpcMessage

/-!
# `ProcFs::fillMemory`

How `collect` reads `/proc/meminfo`. The first five figures are expected on the first five lines,
then the reader goes on until a line begins with `SwapTotal:`, and `SwapFree:` is expected on the
next one. At the end of the text the reader goes on with empty lines, so there has to be such a line
from the sixth on (`fillMemory_terminates_iff`), and the figures are all found only as long as the
lines stand in these places (`fillMemory_finds_iff`).
-/

set_option autoImplicit false
set_option relaxedAutoImplicit false

namespace MuduoProtorpc.Collect

open Foundation Ascii

/-! ### `LineReader` -/

/-- `LineReader`. `content` and `value` are the bytes from there to the end of the buffer, which is
also where `content_` ends. -/
structure LineReader where
  content : Bytes
  line : Bytes := []
  key : Bytes := []
  value : Bytes := []

namespace LineReader

/-- `next`. -/
def next (reader : LineReader) : LineReader :=
  let (line, content) := splitLine reader.content
  match memchr space line with
  | some sp =>
    { content := content
      line := line
      key := line.take sp
      value := reader.content.drop (sp + 1) }
  | none => { content := content, line := line }

/-- The constructor. -/
def new (content : Bytes) : LineReader :=
  next { content := content }

/-- `valueAsInt64`: `strtoll` does not know where the line ends. -/
def valueAsInt64 (reader : LineReader) : BitVec 64 :=
  BitVec.ofInt 64 (strtoll reader.value).1

/-- Sets a figure to the value of the line, if it has the key. -/
def figure (reader : LineReader) (key : Bytes) (old : Option (BitVec 64)) : Option (BitVec 64) :=
  if reader.key = key then some reader.valueAsInt64 else old

/-- `while (r.key != key) r.next()`. -/
def skipTo (key : Bytes) : ℕ → LineReader → Option LineReader
  | 0, _ => none
  | fuel + 1, reader => if reader.key ≠ key then skipTo key fuel reader.next else some reader

end LineReader

/-! ### `fillMemory` -/

/-- `SystemInfo_Memory`. -/
structure Memory where
  totalKb : Option (BitVec 64) := none
  freeKb : Option (BitVec 64) := none
  buffersKb : Option (BitVec 64) := none
  cachedKb : Option (BitVec 64) := none
  swapTotalKb : Option (BitVec 64) := none
  swapFreeKb : Option (BitVec 64) := none
  swapCachedKb : Option (BitVec 64) := none

def memTotal : Bytes := bytes "MemTotal:"
def memFree : Bytes := bytes "MemFree:"
def buffers : Bytes := bytes "Buffers:"
def cached : Bytes := bytes "Cached:"
def swapCached : Bytes := bytes "SwapCached:"
def swapTotal : Bytes := bytes "SwapTotal:"
def swapFree : Bytes := bytes "SwapFree:"

/-- `fillMemory`, on the content of the file. -/
def fillMemory (fuel : ℕ) (content : Bytes) (memory : Memory) : Option Memory := do
  let r0 := LineReader.new content
  let totalKb := r0.figure memTotal memory.totalKb
  let r1 := r0.next
  let freeKb := r1.figure memFree memory.freeKb
  let r2 := r1.next
  let buffersKb := r2.figure buffers memory.buffersKb
  let r3 := r2.next
  let cachedKb := r3.figure cached memory.cachedKb
  let r4 := r3.next
  let swapCachedKb := r4.figure swapCached memory.swapCachedKb
  let r5 := r4.next
  let r6 ← r5.skipTo swapTotal fuel
  let swapTotalKb := r6.figure swapTotal memory.swapTotalKb
  let r7 := r6.next
  let swapFreeKb := r7.figure swapFree memory.swapFreeKb
  return {
    totalKb := totalKb
    freeKb := freeKb
    buffersKb := buffersKb
    cachedKb := cachedKb
    swapTotalKb := swapTotalKb
    swapFreeKb := swapFreeKb
    swapCachedKb := swapCachedKb }

/-! ### The lines that are read -/

/-- The part of a line before its first space, if it has one. -/
def keyOf (line : Bytes) : Bytes :=
  match memchr space line with
  | some sp => line.take sp
  | none => []

/-- The reader at a line; the first is line 0. -/
def readerAt (content : Bytes) : ℕ → LineReader
  | 0 => LineReader.new content
  | index + 1 => (readerAt content index).next

section Lines

variable {content key : Bytes} {index : ℕ}

theorem content_new (content : Bytes) :
    (LineReader.new content).content = (splitLine content).2 := by
  unfold LineReader.new LineReader.next
  simp only
  cases memchr space (splitLine content).1 with
  | none => rfl
  | some sp => rfl

theorem readerAt_succ (content : Bytes) (index : ℕ) :
    readerAt content (index + 1) = readerAt (splitLine content).2 index := by
  induction index with
  | zero => exact congrArg LineReader.new (content_new content)
  | succ index ih => rw [readerAt, ih, readerAt]

/-- At each line the reader has the key of the line. -/
theorem key_readerAt (content : Bytes) (index : ℕ) :
    (readerAt content index).key = keyOf (lineAt content index) := by
  induction index generalizing content with
  | zero =>
    unfold readerAt LineReader.new LineReader.next keyOf lineAt
    simp only
    cases memchr space (splitLine content).1 with
    | none => rfl
    | some sp => rfl
  | succ index ih => rw [readerAt_succ, ih, lineAt]

/-- The search ends at the first line with the key. -/
theorem skipTo_eq_some_iff {fuel : ℕ} {found : LineReader} :
    (readerAt content index).skipTo key fuel = some found ↔
      ∃ last, index ≤ last ∧ last < index + fuel ∧ found = readerAt content last ∧
        keyOf (lineAt content last) = key ∧
          ∀ earlier, index ≤ earlier → earlier < last → keyOf (lineAt content earlier) ≠ key := by
  induction fuel generalizing index with
  | zero =>
    constructor
    · intro hfound
      cases hfound
    · rintro ⟨last, hfirst, hlast, -⟩
      exact absurd hfirst (not_le.mpr hlast)
  | succ fuel ih =>
    rw [LineReader.skipTo, key_readerAt]
    by_cases hkey : keyOf (lineAt content index) = key
    · rw [if_neg (not_not.mpr hkey)]
      constructor
      · intro hfound
        refine ⟨index, Nat.le_refl index, by omega, (Option.some.inj hfound).symm, hkey, ?_⟩
        intro earlier hfirst hearlier
        exact absurd hfirst (not_le.mpr hearlier)
      · rintro ⟨last, hfirst, -, rfl, -, hearlier⟩
        have hlast : last = index := by
          by_contra hne
          exact hearlier index (Nat.le_refl index) (lt_of_le_of_ne hfirst (Ne.symm hne)) hkey
        rw [hlast]
    · rw [if_pos hkey, show (readerAt content index).next = readerAt content (index + 1) from rfl,
        ih]
      constructor
      · rintro ⟨last, hfirst, hlast, rfl, hfound, hearlier⟩
        refine ⟨last, by omega, by omega, rfl, hfound, ?_⟩
        intro earlier hle hlt
        by_cases hindex : earlier = index
        · rwa [hindex]
        · exact hearlier earlier (by omega) hlt
      · rintro ⟨last, hfirst, hlast, rfl, hfound, hearlier⟩
        have hne : index ≠ last := by
          rintro rfl
          exact hkey hfound
        refine ⟨last, by omega, by omega, rfl, hfound, ?_⟩
        intro earlier hle hlt
        exact hearlier earlier (by omega) hlt

theorem new_eq_readerAt (content : Bytes) : LineReader.new content = readerAt content 0 :=
  rfl

theorem next_readerAt (content : Bytes) (index : ℕ) :
    (readerAt content index).next = readerAt content (index + 1) :=
  rfl

/-- What `fillMemory` finds, with the readers at their lines. -/
theorem fillMemory_eq_some_iff {fuel : ℕ} {memory filled : Memory} :
    fillMemory fuel content memory = some filled ↔
      ∃ last, 5 ≤ last ∧ last < 5 + fuel ∧ keyOf (lineAt content last) = swapTotal ∧
        (∀ earlier, 5 ≤ earlier → earlier < last →
          keyOf (lineAt content earlier) ≠ swapTotal) ∧
        filled = {
          totalKb := (readerAt content 0).figure memTotal memory.totalKb
          freeKb := (readerAt content 1).figure memFree memory.freeKb
          buffersKb := (readerAt content 2).figure buffers memory.buffersKb
          cachedKb := (readerAt content 3).figure cached memory.cachedKb
          swapCachedKb := (readerAt content 4).figure swapCached memory.swapCachedKb
          swapTotalKb := (readerAt content last).figure swapTotal memory.swapTotalKb
          swapFreeKb := (readerAt content (last + 1)).figure swapFree memory.swapFreeKb } := by
  unfold fillMemory
  simp only [new_eq_readerAt, next_readerAt, Nat.reduceAdd, Option.bind_eq_bind, Option.pure_def]
  constructor
  · intro hfill
    obtain ⟨found, hfound, hfilled⟩ := Option.bind_eq_some_iff.mp hfill
    obtain ⟨last, hfirst, hlast, rfl, hkey, hearlier⟩ := skipTo_eq_some_iff.mp hfound
    simp only [next_readerAt] at hfilled
    exact ⟨last, hfirst, hlast, hkey, hearlier, (Option.some.inj hfilled).symm⟩
  · rintro ⟨last, hfirst, hlast, hkey, hearlier, rfl⟩
    have hfound := skipTo_eq_some_iff.mpr ⟨last, hfirst, hlast, rfl, hkey, hearlier⟩
    rw [hfound, Option.bind_some]
    rfl

end Lines

/-! ### Termination -/

/-- The calls of `LineReader::next` come to an end. -/
def Terminates (content : Bytes) : Prop :=
  ∃ fuel filled, fillMemory fuel content {} = some filled

/-- `fillMemory` terminates if and only if a line begins with `SwapTotal:` from the sixth on. -/
theorem fillMemory_terminates_iff (content : Bytes) :
    Terminates content ↔ ∃ index, 5 ≤ index ∧ keyOf (lineAt content index) = swapTotal := by
  constructor
  · rintro ⟨fuel, filled, hfill⟩
    obtain ⟨last, hfirst, -, hkey, -⟩ := fillMemory_eq_some_iff.mp hfill
    exact ⟨last, hfirst, hkey⟩
  · intro hexists
    classical
    have hspec := Nat.find_spec hexists
    refine ⟨Nat.find hexists + 1, _, fillMemory_eq_some_iff.mpr
      ⟨Nat.find hexists, hspec.1, by omega, hspec.2, ?_, rfl⟩⟩
    intro earlier hfirst hearlier hkey
    exact Nat.find_min hexists hearlier ⟨hfirst, hkey⟩

/-- The text is cut in its first line. -/
theorem not_terminates_truncated : ¬ ∀ content, Terminates content := by
  intro hterminates
  obtain ⟨index, hfirst, hkey⟩ :=
    (fillMemory_terminates_iff _).mp (hterminates (bytes "MemTotal:  8"))
  obtain ⟨before, rfl⟩ := Nat.exists_eq_add_of_le' hfirst
  have hempty : lineAt (bytes "MemTotal:  8") (before + 5) = lineAt [] (before + 4) := rfl
  rw [hempty, lineAt_nil] at hkey
  exact absurd hkey (by decide)

/-! ### Figures -/

/-- A line `Key:   number kB`; some lines have no unit. -/
structure MemLine where
  key : Bytes
  space_notMem_key : space ∉ key
  newline_notMem_key : newline ∉ key
  spaces : ℕ
  number : Numeral
  unit : Bytes
  fails_unit : Fails isDigit unit
  newline_notMem_unit : newline ∉ unit

namespace MemLine

variable (line : MemLine)

/-- What is behind the first space of the line. -/
def tail : Bytes :=
  List.replicate line.spaces space ++ (line.number.text ++ line.unit)

def text : Bytes :=
  line.key ++ space :: line.tail

theorem newline_notMem_text : newline ∉ line.text := by
  have hspaces : newline ∉ List.replicate line.spaces space := by
    intro hmem
    exact absurd (List.eq_of_mem_replicate hmem) (by decide)
  have hnumber : newline ∉ line.number.text :=
    line.number.not_mem_text rfl (by decide) (by decide)
  have hspace : newline ≠ space := by decide
  simp [text, tail, line.newline_notMem_key, line.newline_notMem_unit, hspaces, hnumber, hspace]

end MemLine

/-- The text that is made of some lines. -/
def memText (lines : List MemLine) : Bytes :=
  lines.flatMap fun line ↦ line.text ++ [newline]

/-- The keys of the figures, in the order of the lines they are on. -/
def memKeys : List Bytes :=
  [memTotal, memFree, buffers, cached, swapCached, swapTotal, swapFree]

/-- Each of the keys is there once, and they are in this order. -/
def Ordered (lines : List MemLine) : Prop :=
  (lines.map MemLine.key).filter (fun key ↦ decide (key ∈ memKeys)) = memKeys

instance (lines : List MemLine) : Decidable (Ordered lines) :=
  inferInstanceAs (Decidable (_ = _))

/-- A figure is set to the number on the line with a key. -/
def Figure (lines : List MemLine) (key : Bytes) (figure : Option (BitVec 64)) : Prop :=
  ∃ line ∈ lines, line.key = key ∧ figure.map BitVec.toInt = some line.number.value

/-- All figures are set, each to its number. -/
structure AllFound (lines : List MemLine) (memory : Memory) : Prop where
  totalKb : Figure lines memTotal memory.totalKb
  freeKb : Figure lines memFree memory.freeKb
  buffersKb : Figure lines buffers memory.buffersKb
  cachedKb : Figure lines cached memory.cachedKb
  swapTotalKb : Figure lines swapTotal memory.swapTotalKb
  swapFreeKb : Figure lines swapFree memory.swapFreeKb
  swapCachedKb : Figure lines swapCached memory.swapCachedKb

/-- The first five keys are on the first five lines, and the last two are on two lines in a row. -/
structure InPlace (lines : List MemLine) : Prop where
  first : (lines.map MemLine.key).take 5 = memKeys.take 5
  last : ∃ index, (lines.map MemLine.key)[index]? = some swapTotal ∧
    (lines.map MemLine.key)[index + 1]? = some swapFree

/-- The numbers of the figures are in the range of `int64_t`. -/
def NumbersFit (lines : List MemLine) : Prop :=
  ∀ line ∈ lines, line.key ∈ memKeys → -2 ^ 63 ≤ line.number.value ∧ line.number.value < 2 ^ 63

section Figures

variable {lines : List MemLine} {line other : MemLine} {key : Bytes} {index : ℕ}

theorem nodup_memKeys : memKeys.Nodup := by
  decide

theorem keyOf_text (line : MemLine) : keyOf line.text = line.key := by
  unfold keyOf MemLine.text
  simp only [memchr_append line.tail line.space_notMem_key, List.take_left']

theorem splitLine_memText (line : MemLine) (rest : List MemLine) :
    splitLine (memText (line :: rest)) = (line.text, memText rest) := by
  unfold memText
  rw [List.flatMap_cons, List.append_assoc]
  exact splitLine_append _ line.newline_notMem_text

/-- The lines of the text. -/
theorem lineAt_memText (lines : List MemLine) (index : ℕ) :
    lineAt (memText lines) index = (lines[index]?.map MemLine.text).getD [] := by
  induction lines generalizing index with
  | nil => exact lineAt_nil index
  | cons line rest ih =>
    cases index with
    | zero => rw [lineAt, splitLine_memText]; rfl
    | succ index => rw [lineAt, splitLine_memText, ih]; rfl

/-- The key that the reader has at a line. -/
theorem keyOf_lineAt_iff (hkey : key ≠ []) :
    keyOf (lineAt (memText lines) index) = key ↔
      (lines.map MemLine.key)[index]? = some key := by
  rw [lineAt_memText, List.getElem?_map]
  cases lines[index]? with
  | none => simp [keyOf, memchr, hkey.symm]
  | some line => simp [keyOf_text]

/-- What the reader has behind the key of a line. -/
theorem value_new (line : MemLine) (rest : List MemLine) :
    (LineReader.new (memText (line :: rest))).value = line.tail ++ newline :: memText rest := by
  have htext : memText (line :: rest) =
      line.key ++ space :: (line.tail ++ newline :: memText rest) := by
    simp [memText, MemLine.text]
  have hkey : memchr space line.text = some line.key.length :=
    memchr_append line.tail line.space_notMem_key
  unfold LineReader.new LineReader.next
  simp only [splitLine_memText, hkey]
  rw [htext, List.append_cons, List.drop_left' (by simp)]

/-- The number that the reader reads at a line. -/
theorem valueAsInt64_readerAt (hline : lines[index]? = some line) :
    (readerAt (memText lines) index).valueAsInt64 =
      BitVec.ofInt 64 (saturate line.number.value) := by
  induction lines generalizing index with
  | nil => cases hline
  | cons first rest ih =>
    cases index with
    | zero =>
      obtain rfl := Option.some.inj hline
      have hspaces : ∀ char ∈ List.replicate first.spaces space, isSpace char = true := by
        intro char hchar
        rw [List.eq_of_mem_replicate hchar]
        rfl
      have hunit : Fails isDigit (first.unit ++ newline :: memText rest) :=
        first.fails_unit.append (fails_cons _ rfl)
      rw [LineReader.valueAsInt64, readerAt, value_new, MemLine.tail, List.append_assoc,
        List.append_assoc, strtoll_spaces_numeral first.number hspaces hunit]
    | succ index =>
      rw [readerAt_succ, splitLine_memText]
      exact ih hline

/-- A key of a figure is not on a line before another. -/
theorem notMem_take (hordered : Ordered lines) (hkey : key ∈ memKeys)
    (hindex : (lines.map MemLine.key)[index]? = some key) :
    key ∉ (lines.map MemLine.key).take index := by
  obtain ⟨hlength, hget⟩ := List.getElem?_eq_some_iff.mp hindex
  have hsplit : lines.map MemLine.key =
      (lines.map MemLine.key).take index ++ key :: (lines.map MemLine.key).drop (index + 1) := by
    rw [← hget, ← List.drop_eq_getElem_cons hlength, List.take_append_drop]
  have hnodup : ((lines.map MemLine.key).filter fun key ↦ decide (key ∈ memKeys)).Nodup := by
    rw [hordered]
    exact nodup_memKeys
  rw [hsplit, List.filter_append, List.filter_cons_of_pos (by simpa using hkey)] at hnodup
  intro hmem
  apply List.disjoint_of_nodup_append hnodup (List.mem_filter.mpr ⟨hmem, by simpa using hkey⟩)
  exact List.mem_cons_self

/-- A key of a figure is on one line. -/
theorem index_unique (hordered : Ordered lines) (hkey : key ∈ memKeys) {first second : ℕ}
    (hfirst : (lines.map MemLine.key)[first]? = some key)
    (hsecond : (lines.map MemLine.key)[second]? = some key) : first = second := by
  have hle : ∀ {left right : ℕ}, (lines.map MemLine.key)[left]? = some key →
      (lines.map MemLine.key)[right]? = some key → right ≤ left := by
    intro left right hleft hright
    by_contra hlt
    apply notMem_take hordered hkey hright
    apply List.mem_of_getElem? (i := left)
    rwa [List.getElem?_take_of_lt (not_le.mp hlt)]
  exact Nat.le_antisymm (hle hsecond hfirst) (hle hfirst hsecond)

theorem line_unique (hordered : Ordered lines) (hkey : line.key ∈ memKeys)
    (hline : line ∈ lines) (hother : other ∈ lines) (hsame : other.key = line.key) :
    other = line := by
  obtain ⟨first, hfirst⟩ := List.getElem?_of_mem hline
  obtain ⟨second, hsecond⟩ := List.getElem?_of_mem hother
  have hindex : first = second := by
    apply index_unique hordered hkey
    · rw [List.getElem?_map, hfirst]
      rfl
    · rw [List.getElem?_map, hsecond, Option.map_some, hsame]
  rw [hindex] at hfirst
  exact Option.some.inj (hsecond.symm.trans hfirst)

/-- At a line, the reader sets a figure to its number if and only if the line has the key and its
number fits. -/
theorem figure_readerAt_iff (hordered : Ordered lines) (hkey : key ∈ memKeys) :
    Figure lines key ((readerAt (memText lines) index).figure key none) ↔
      ∃ line, lines[index]? = some line ∧ line.key = key ∧
        -2 ^ 63 ≤ line.number.value ∧ line.number.value < 2 ^ 63 := by
  have hne : key ≠ [] := by
    rintro rfl
    exact absurd hkey (by decide)
  unfold LineReader.figure
  rw [key_readerAt]
  constructor
  · rintro ⟨other, hother, hotherKey, hfigure⟩
    split_ifs at hfigure with hread
    · have hindex := (keyOf_lineAt_iff hne).mp hread
      rw [List.getElem?_map] at hindex
      obtain ⟨line, hline, rfl⟩ := Option.map_eq_some_iff.mp hindex
      obtain rfl := line_unique hordered hkey (List.mem_of_getElem? hline) hother hotherKey
      have hvalue := Option.some.inj hfigure
      refine ⟨other, hline, rfl, ?_⟩
      rw [← hvalue]
      exact ⟨BitVec.le_toInt _, BitVec.toInt_lt⟩
    · cases hfigure
  · rintro ⟨line, hline, rfl, hleast, hgreatest⟩
    refine ⟨line, List.mem_of_getElem? hline, rfl, ?_⟩
    have hindex : (lines.map MemLine.key)[index]? = some line.key := by
      rw [List.getElem?_map, hline]
      rfl
    rw [if_pos ((keyOf_lineAt_iff hne).mpr hindex), valueAsInt64_readerAt hline,
      saturate_eq hleast hgreatest]
    exact congrArg some (BitVec.toInt_ofInt_eq_self (by decide) hleast hgreatest)

theorem figure_of_index (hordered : Ordered lines) (hfit : NumbersFit lines)
    (hkey : key ∈ memKeys) (hindex : (lines.map MemLine.key)[index]? = some key) :
    Figure lines key ((readerAt (memText lines) index).figure key none) := by
  rw [List.getElem?_map] at hindex
  obtain ⟨line, hline, rfl⟩ := Option.map_eq_some_iff.mp hindex
  have hrange := hfit line (List.mem_of_getElem? hline) hkey
  exact (figure_readerAt_iff hordered hkey).mpr ⟨line, hline, rfl, hrange⟩

theorem index_of_figure (hordered : Ordered lines) (hkey : key ∈ memKeys)
    (hfigure : Figure lines key ((readerAt (memText lines) index).figure key none)) :
    (lines.map MemLine.key)[index]? = some key ∧
      ∀ line ∈ lines, line.key = key →
        -2 ^ 63 ≤ line.number.value ∧ line.number.value < 2 ^ 63 := by
  obtain ⟨found, hfound, rfl, hrange⟩ := (figure_readerAt_iff hordered hkey).mp hfigure
  constructor
  · rw [List.getElem?_map, hfound]
    rfl
  · intro line hline hsame
    rwa [line_unique hordered hkey (List.mem_of_getElem? hfound) hline hsame]

/-- The first five keys, line by line. -/
theorem first_iff : (lines.map MemLine.key).take 5 = memKeys.take 5 ↔
    (lines.map MemLine.key)[0]? = some memTotal ∧ (lines.map MemLine.key)[1]? = some memFree ∧
      (lines.map MemLine.key)[2]? = some buffers ∧ (lines.map MemLine.key)[3]? = some cached ∧
        (lines.map MemLine.key)[4]? = some swapCached := by
  constructor
  · intro htake
    have hindex : ∀ index < 5, (lines.map MemLine.key)[index]? = (memKeys.take 5)[index]? := by
      intro index hindex
      rw [← htake, List.getElem?_take_of_lt hindex]
    exact ⟨hindex 0 (by decide), hindex 1 (by decide), hindex 2 (by decide), hindex 3 (by decide),
      hindex 4 (by decide)⟩
  · rintro ⟨htotal, hfree, hbuffers, hcached, hswap⟩
    apply List.ext_getElem?
    intro index
    by_cases hindex : index < 5
    · rw [List.getElem?_take_of_lt hindex]
      match index, hindex with
      | 0, _ => exact htotal
      | 1, _ => exact hfree
      | 2, _ => exact hbuffers
      | 3, _ => exact hcached
      | 4, _ => exact hswap
    · have hbehind : 5 ≤ index := not_lt.mp hindex
      rw [List.getElem?_eq_none ((List.length_take_le 5 _).trans hbehind)]
      exact (List.getElem?_eq_none hbehind).symm

/-- `SwapTotal` is behind the first five lines. -/
theorem five_le_of_swapTotal (hfirst : (lines.map MemLine.key).take 5 = memKeys.take 5)
    (hindex : (lines.map MemLine.key)[index]? = some swapTotal) : 5 ≤ index := by
  by_contra hlt
  have hmem : swapTotal ∈ (lines.map MemLine.key).take 5 := by
    apply List.mem_of_getElem? (i := index)
    rwa [List.getElem?_take_of_lt (not_le.mp hlt)]
  rw [hfirst] at hmem
  exact absurd hmem (by decide)

end Figures

/-- On a text with all the keys in order, the figures are all found if and only if the lines stand
in the places where they are looked for. -/
theorem fillMemory_finds_iff {lines : List MemLine} (hordered : Ordered lines) :
    (∃ fuel memory, fillMemory fuel (memText lines) {} = some memory ∧ AllFound lines memory) ↔
      InPlace lines ∧ NumbersFit lines := by
  constructor
  · rintro ⟨fuel, memory, hfill, hfound⟩
    obtain ⟨last, -, -, -, -, rfl⟩ := fillMemory_eq_some_iff.mp hfill
    obtain ⟨htotal, hfree, hbuffers, hcached, hlast, hnext, hswap⟩ := hfound
    dsimp only at htotal hfree hbuffers hcached hlast hnext hswap
    obtain ⟨htotal, htotalFits⟩ := index_of_figure hordered (by decide) htotal
    obtain ⟨hfree, hfreeFits⟩ := index_of_figure hordered (by decide) hfree
    obtain ⟨hbuffers, hbuffersFits⟩ := index_of_figure hordered (by decide) hbuffers
    obtain ⟨hcached, hcachedFits⟩ := index_of_figure hordered (by decide) hcached
    obtain ⟨hswap, hswapFits⟩ := index_of_figure hordered (by decide) hswap
    obtain ⟨hlast, hlastFits⟩ := index_of_figure hordered (by decide) hlast
    obtain ⟨hnext, hnextFits⟩ := index_of_figure hordered (by decide) hnext
    refine ⟨⟨first_iff.mpr ⟨htotal, hfree, hbuffers, hcached, hswap⟩, last, hlast, hnext⟩, ?_⟩
    intro line hline hkey
    simp only [memKeys, List.mem_cons, List.not_mem_nil, or_false] at hkey
    rcases hkey with hkey | hkey | hkey | hkey | hkey | hkey | hkey
    · exact htotalFits line hline hkey
    · exact hfreeFits line hline hkey
    · exact hbuffersFits line hline hkey
    · exact hcachedFits line hline hkey
    · exact hswapFits line hline hkey
    · exact hlastFits line hline hkey
    · exact hnextFits line hline hkey
  · rintro ⟨⟨hfirst, last, hlast, hnext⟩, hfit⟩
    have hfive := five_le_of_swapTotal hfirst hlast
    obtain ⟨htotal, hfree, hbuffers, hcached, hswap⟩ := first_iff.mp hfirst
    have hkey := (keyOf_lineAt_iff (by decide)).mpr hlast
    have hearlier : ∀ earlier, 5 ≤ earlier → earlier < last →
        keyOf (lineAt (memText lines) earlier) ≠ swapTotal := by
      intro earlier _ hlt hsame
      have hindex := (keyOf_lineAt_iff (by decide)).mp hsame
      exact hlt.ne (index_unique hordered (by decide) hindex hlast)
    refine ⟨last + 1, _,
      fillMemory_eq_some_iff.mpr ⟨last, hfive, by omega, hkey, hearlier, rfl⟩, ?_⟩
    constructor <;> dsimp only
    · exact figure_of_index hordered hfit (by decide) htotal
    · exact figure_of_index hordered hfit (by decide) hfree
    · exact figure_of_index hordered hfit (by decide) hbuffers
    · exact figure_of_index hordered hfit (by decide) hcached
    · exact figure_of_index hordered hfit (by decide) hlast
    · exact figure_of_index hordered hfit (by decide) hnext
    · exact figure_of_index hordered hfit (by decide) hswap

/-- A line of a key with a number of one digit. -/
def kbLine (key : String) (hspace : space ∉ bytes key) (hnewline : newline ∉ bytes key)
    (value : Fin 10) : MemLine where
  key := bytes key
  space_notMem_key := hspace
  newline_notMem_key := hnewline
  spaces := 7
  number := .digit value
  unit := bytes " kB"
  fails_unit := fails_cons _ rfl
  newline_notMem_unit := by decide

/-- The lines of an old kernel. -/
def oldLines : List MemLine :=
  [kbLine "MemTotal:" (by decide) (by decide) 9, kbLine "MemFree:" (by decide) (by decide) 4,
    kbLine "Buffers:" (by decide) (by decide) 1, kbLine "Cached:" (by decide) (by decide) 3,
    kbLine "SwapCached:" (by decide) (by decide) 0, kbLine "Active:" (by decide) (by decide) 2,
    kbLine "SwapTotal:" (by decide) (by decide) 8, kbLine "SwapFree:" (by decide) (by decide) 7,
    kbLine "Dirty:" (by decide) (by decide) 0]

theorem fillMemory_finds_oldLines :
    (∃ fuel memory, fillMemory fuel (memText oldLines) {} = some memory ∧
      AllFound oldLines memory) ↔ InPlace oldLines ∧ NumbersFit oldLines := by
  apply fillMemory_finds_iff
  decide

/-- Newer kernels have `MemAvailable` on the third line. -/
def newLines : List MemLine :=
  [kbLine "MemTotal:" (by decide) (by decide) 9, kbLine "MemFree:" (by decide) (by decide) 4,
    kbLine "MemAvailable:" (by decide) (by decide) 6, kbLine "Buffers:" (by decide) (by decide) 1,
    kbLine "Cached:" (by decide) (by decide) 3, kbLine "SwapCached:" (by decide) (by decide) 0,
    kbLine "SwapTotal:" (by decide) (by decide) 8, kbLine "SwapFree:" (by decide) (by decide) 7]

/-- There, `buffers` is not set. -/
theorem not_finds_newLines : ¬ ∀ lines, Ordered lines →
    ∃ fuel memory, fillMemory fuel (memText lines) {} = some memory ∧ AllFound lines memory := by
  intro hfinds
  have hordered : Ordered newLines := by decide
  obtain ⟨fuel, memory, hfill, hfound⟩ := hfinds newLines hordered
  obtain ⟨last, -, -, -, -, rfl⟩ := fillMemory_eq_some_iff.mp hfill
  obtain ⟨-, -, hbuffers, -⟩ := hfound
  dsimp only at hbuffers
  obtain ⟨hindex, -⟩ := index_of_figure hordered (by decide) hbuffers
  exact absurd hindex (by decide)

end MuduoProtorpc.Collect
