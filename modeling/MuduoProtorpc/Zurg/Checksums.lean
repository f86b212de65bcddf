import MuduoProtorpc.Zurg.ParseMd5sum

/-!
# File checksums

`SlaveServiceImpl::getFileChecksum` runs `md5sum` on the files of a request, and answers with what
`parseMd5sum` has found in the output. A line with a backslash in its name begins with another one,
and is cut in the wrong places, so the answer is right exactly if no file that was read has a
backslash in its name (`checksums_right_iff`).

The output is cut when it is too long, or when it has not been read to its end before the command
exits. The parser survives that exactly if whole lines were cut (`parseMd5sum_survives_iff`).
-/

set_option autoImplicit false
set_option relaxedAutoImplicit false

namespace MuduoProtorpc.Zurg

open Foundation Ascii

/-! ### The service -/

/-- `getFileChecksumDone`: `operator[]` gives an empty piece for a name that is not there. -/
def getFileChecksumDone (ndebug : Bool) (fuel : ℕ) (files : List Bytes) (lines : Bytes) :
    Except Stop (List Bytes) :=
  (parseMd5sum ndebug fuel lines).map fun md5sums ↦
    files.map fun file ↦ (md5sums.find file).getD []

/-- A string as `execvp` takes it, up to its first NUL. -/
def cString (text : Bytes) : Bytes :=
  text.takeWhile fun char ↦ decide (char ≠ nul)

/-- `getFileChecksum`, with what `md5sum` prints for some arguments. All of it is captured here;
`runCommand` cuts the output at `max_stdout`, which is 1048576 when it is not set. -/
def getFileChecksum (ndebug : Bool) (fuel : ℕ) (md5sum : List Bytes → Bytes)
    (files : List Bytes) : Except Stop (List Bytes) :=
  if files = [] then .ok []
  else if ndebug = false ∧ ∃ file ∈ files, newline ∈ file then .error .assertion
  else getFileChecksumDone ndebug fuel files (md5sum (files.map cString))

/-! ### `md5sum` -/

/-- Hexadecimal digits. -/
def isHexDigit (char : UInt8) : Bool :=
  isDigit char || (97 ≤ char && char ≤ 102)

/-- A digest as it is printed. -/
structure Digest where
  text : Bytes
  length_text : text.length = 32
  isHexDigit_of_mem : ∀ char ∈ text, isHexDigit char = true

/-- A name with its backslashes escaped. -/
def escape (name : Bytes) : Bytes :=
  name.flatMap fun char ↦ if char = backslash then [backslash, backslash] else [char]

/-- The line of a file. A backslash in front says that its name is escaped. -/
def md5Line (name : Bytes) (digest : Digest) : Bytes :=
  if backslash ∈ name then backslash :: (digest.text ++ space :: space :: escape name)
  else digest.text ++ space :: space :: name

/-- The lines of the arguments that can be read, in order. -/
def printed (read : Bytes → Option Digest) (args : List Bytes) : List (Bytes × Digest) :=
  args.filterMap fun name ↦ (read name).map fun digest ↦ (name, digest)

def md5Output (entries : List (Bytes × Digest)) : Bytes :=
  entries.flatMap fun (name, digest) ↦ md5Line name digest ++ [newline]

/-- What `md5sum` prints. -/
def md5sum (read : Bytes → Option Digest) (args : List Bytes) : Bytes :=
  md5Output (printed read args)

/-- A name that is printed as it is, and is no longer than an `int` can tell. -/
def Plain (name : Bytes) : Prop :=
  backslash ∉ name ∧ name.length < 2 ^ 31

/-! ### The lines of some files -/

/-- A name that fits in a line and in an argument. -/
structure Clean (name : Bytes) : Prop where
  newline_notMem : newline ∉ name
  nul_notMem : nul ∉ name

/-- The lines of some files, without their newlines. -/
def md5Lines (entries : List (Bytes × Digest)) : List Bytes :=
  entries.map fun (name, digest) ↦ md5Line name digest

/-- What is read from the lines of some files. -/
def sumsOf (entries : List (Bytes × Digest)) : Table Bytes Bytes :=
  Table.empty.insertAll ((md5Lines entries).map rowEntry)

section Lines

variable {name : Bytes} {digest : Digest} {entries : List (Bytes × Digest)}
  {read : Bytes → Option Digest} {ndebug : Bool}

theorem md5Output_eq (entries : List (Bytes × Digest)) :
    md5Output entries = rowText (md5Lines entries) := by
  rw [md5Output, rowText, md5Lines, List.flatMap_map]

theorem notMem_digest (digest : Digest) {char : UInt8} (hchar : isHexDigit char = false) :
    char ∉ digest.text := by
  intro hmem
  rw [digest.isHexDigit_of_mem char hmem] at hchar
  cases hchar

theorem mem_of_mem_escape {char : UInt8} (hmem : char ∈ escape name) : char ∈ name := by
  obtain ⟨other, hother, hchar⟩ := List.mem_flatMap.mp hmem
  by_cases hbackslash : other = backslash
  · rw [if_pos hbackslash] at hchar
    obtain rfl : char = backslash := by simpa using hchar
    exact hbackslash ▸ hother
  · rw [if_neg hbackslash, List.mem_singleton] at hchar
    exact hchar ▸ hother

/-- Characters that are not in the name, and not what else is in a line, are not in the line. -/
theorem notMem_md5Line {char : UInt8} (hhex : isHexDigit char = false) (hspace : char ≠ space)
    (hbackslash : char ≠ backslash) (hname : char ∉ name) : char ∉ md5Line name digest := by
  have hdigest := notMem_digest digest hhex
  have hescape : char ∉ escape name := fun hmem ↦ hname (mem_of_mem_escape hmem)
  rw [md5Line]
  split_ifs
  · simp [hdigest, hspace, hbackslash, hescape]
  · simp [hdigest, hspace, hname]

/-- The line of a clean name is a row. -/
theorem row_md5Line (hclean : Clean name) : Row (md5Line name digest) := by
  constructor
  · exact notMem_md5Line (by decide) (by decide) (by decide) hclean.newline_notMem
  · exact notMem_md5Line (by decide) (by decide) (by decide) hclean.nul_notMem
  · have hdigest := digest.length_text
    rw [md5Line]
    split_ifs
    · simp only [List.length_cons, List.length_append]
      omega
    · simp only [List.length_cons, List.length_append]
      omega

theorem length_md5Line_lt (hplain : Plain name) :
    (md5Line name digest).length < 34 + 2 ^ 31 := by
  have hdigest := digest.length_text
  have hless := hplain.2
  rw [md5Line, if_neg hplain.1]
  simp only [List.length_cons, List.length_append]
  omega

/-- What the loop takes from a line that is not escaped. -/
theorem rowEntry_md5Line (hname : backslash ∉ name) :
    rowEntry (md5Line name digest) = (name.take (castInt name.length).toNat, digest.text) := by
  have hdigest := digest.length_text
  have hline : md5Line name digest = digest.text ++ space :: space :: name := by
    rw [md5Line, if_neg hname]
  have hdrop : (digest.text ++ space :: space :: name).drop 34 = name := by
    rw [show 34 = digest.text.length + 2 by omega, List.drop_length_add_append]
    rfl
  have hlength : ((digest.text ++ space :: space :: name).length : ℤ) - 34 = name.length := by
    simp only [List.length_cons, List.length_append]
    omega
  rw [hline, rowEntry, hdrop, hlength, List.take_left' hdigest]

/-- From a plain name, it takes the name and its digest. -/
theorem rowEntry_of_plain (hplain : Plain name) :
    rowEntry (md5Line name digest) = (name, digest.text) := by
  obtain ⟨hname, hless⟩ := hplain
  have hcast : castInt (name.length : ℤ) = name.length :=
    castInt_eq (by omega) (by omega)
  rw [rowEntry_md5Line hname, hcast, Int.toNat_natCast, List.take_length]

/-- What looks like a name and a digest is of a plain name. -/
theorem plain_of_rowEntry {other : Bytes} {sum : Digest}
    (hentry : rowEntry (md5Line other sum) = (name, digest.text)) : Plain name := by
  by_cases hother : backslash ∈ other
  · -- the line begins with a backslash, and so does what is taken for the digest
    have htext : (md5Line other sum).take 32 = digest.text := congrArg Prod.snd hentry
    have hmem : backslash ∈ digest.text := by
      rw [← htext, md5Line, if_pos hother]
      exact List.mem_cons_self
    exact absurd hmem (notMem_digest digest (by decide))
  · rw [rowEntry_md5Line hother, Prod.mk.injEq] at hentry
    have hcast := castInt_lt (other.length : ℤ)
    constructor
    · intro hmem
      rw [← hentry.1] at hmem
      exact hother (List.mem_of_mem_take hmem)
    · rw [← hentry.1, List.length_take]
      omega

/-- A name that is found with a digest is plain. -/
theorem plain_of_find (hfind : (sumsOf entries).find name = some digest.text) : Plain name := by
  obtain ⟨row, hrow, hentry⟩ := List.mem_map.mp (Table.mem_of_find_insertAll hfind)
  obtain ⟨⟨other, sum⟩, -, rfl⟩ := List.mem_map.mp hrow
  exact plain_of_rowEntry hentry

/-- If all names are plain, they are found with their digests, and nothing else is found. -/
theorem find_sumsOf (hread : ∀ entry ∈ entries, read entry.1 = some entry.2)
    (hplain : ∀ entry ∈ entries, Plain entry.1) (name : Bytes) :
    (sumsOf entries).find name =
      if name ∈ entries.map Prod.fst then (read name).map Digest.text else none := by
  have hpairs : (md5Lines entries).map rowEntry =
      (entries.map Prod.fst).map fun name ↦ (name, ((read name).map Digest.text).getD []) := by
    rw [md5Lines, List.map_map, List.map_map]
    apply List.map_congr_left
    intro entry hentry
    simp only [Function.comp_apply, rowEntry_of_plain (hplain entry hentry), hread entry hentry,
      Option.map_some, Option.getD_some]
  rw [sumsOf, hpairs, Table.find_insertAll_map]
  by_cases hname : name ∈ entries.map Prod.fst
  · obtain ⟨entry, hentry, rfl⟩ := List.mem_map.mp hname
    rw [if_pos hname, if_pos hname, hread entry hentry]
    rfl
  · rw [if_neg hname, if_neg hname]

theorem mem_printed {args : List Bytes} :
    (name, digest) ∈ printed read args ↔ name ∈ args ∧ read name = some digest := by
  simp [printed]

theorem clean_of_mem_printed {args : List Bytes} (hargs : ∀ name ∈ args, Clean name) :
    ∀ entry ∈ printed read args, Clean entry.1 := by
  intro entry hentry
  exact hargs _ (mem_printed.mp hentry).1

/-- What is found when all names that were printed are plain. -/
theorem find_sumsOf_printed {args : List Bytes}
    (hplain : ∀ entry ∈ printed read args, Plain entry.1) (name : Bytes) :
    (sumsOf (printed read args)).find name =
      if name ∈ args then (read name).map Digest.text else none := by
  have hread : ∀ entry ∈ printed read args, read entry.1 = some entry.2 := by
    intro entry hentry
    exact (mem_printed.mp hentry).2
  have hmem : name ∈ (printed read args).map Prod.fst ↔ name ∈ args ∧ (read name).isSome := by
    simp [mem_printed, Option.isSome_iff_exists]
  rw [find_sumsOf hread hplain]
  by_cases hargs : name ∈ args
  · rw [if_pos hargs]
    by_cases hsome : (read name).isSome
    · rw [if_pos (hmem.mpr ⟨hargs, hsome⟩)]
    · rw [if_neg (fun hprinted ↦ hsome (hmem.mp hprinted).2),
        Option.not_isSome_iff_eq_none.mp hsome]
      rfl
  · rw [if_neg hargs, if_neg (fun hprinted ↦ hargs (hmem.mp hprinted).1)]

/-- The lines of clean names are rows. -/
theorem row_of_mem_md5Lines (hclean : ∀ entry ∈ entries, Clean entry.1) :
    ∀ row ∈ md5Lines entries, Row row := by
  intro row hrow
  obtain ⟨entry, hentry, rfl⟩ := List.mem_map.mp hrow
  exact row_md5Line (hclean entry hentry)

/-- The map that `parseMd5sum` makes of complete lines. -/
theorem md5sums_parsed (hclean : ∀ entry ∈ entries, Clean entry.1) :
    (parsed (md5Lines entries)).md5sums (md5Output entries) = sumsOf entries := by
  have hpieces := map_text_rowPieces [] [] (row_of_mem_md5Lines hclean)
  rw [List.append_nil, List.nil_append, List.length_nil] at hpieces
  rw [Md5Parse.md5sums, parsed, sumsOf, md5Output_eq, hpieces]

theorem parseMd5sum_eq_ok {fuel : ℕ} {lines : Bytes} {md5sums : Table Bytes Bytes} :
    parseMd5sum ndebug fuel lines = .ok md5sums ↔
      ∃ parse, parseLoop ndebug lines fuel {} = .ok parse ∧ parse.md5sums lines = md5sums := by
  rw [parseMd5sum]
  cases parseLoop ndebug lines fuel {} with
  | error stop => simp [Except.map]
  | ok parse => simp [Except.map]

/-- `parseMd5sum` on complete lines. -/
theorem parseMd5sum_complete_iff (hclean : ∀ entry ∈ entries, Clean entry.1) {fuel : ℕ}
    {md5sums : Table Bytes Bytes} :
    parseMd5sum ndebug fuel (md5Output entries) = .ok md5sums ↔
      entries.length < fuel ∧ md5sums = sumsOf entries := by
  have hlength : (md5Lines entries).length = entries.length := List.length_map _
  have hsums := md5sums_parsed hclean
  rw [parseMd5sum_eq_ok]
  constructor
  · intro hok
    obtain ⟨parse, hloop, rfl⟩ := hok
    rw [md5Output_eq, parseLoop_complete_iff (row_of_mem_md5Lines hclean), hlength] at hloop
    obtain ⟨hfuel, rfl⟩ := hloop
    exact ⟨hfuel, hsums⟩
  · intro hok
    obtain ⟨hfuel, rfl⟩ := hok
    refine ⟨parsed (md5Lines entries), ?_, hsums⟩
    rw [md5Output_eq, parseLoop_complete_iff (row_of_mem_md5Lines hclean), hlength]
    exact ⟨hfuel, rfl⟩

end Lines

/-! ### The answer of the service -/

/-- The digest of a file as it is asked for. A name with a NUL is not that of a file. -/
def checksumOf (read : Bytes → Option Digest) (file : Bytes) : Bytes :=
  if nul ∈ file then [] else ((read file).map Digest.text).getD []

/-- The parser tells the digests of the names that were printed and of no others, and the answer has
that of each file that was asked for. -/
def RightChecksums (ndebug : Bool) (read : Bytes → Option Digest) (files : List Bytes) : Prop :=
  ∃ fuel md5sums,
    parseMd5sum ndebug fuel (md5sum read (files.map cString)) = .ok md5sums ∧
      (∀ name ∈ files.map cString, md5sums.find name = (read name).map Digest.text) ∧
      (∀ name ∉ files.map cString, md5sums.find name = none) ∧
      getFileChecksum ndebug fuel (md5sum read) files = .ok (files.map (checksumOf read))

section Service

variable {ndebug : Bool} {read : Bytes → Option Digest} {files : List Bytes}

theorem nul_notMem_cString (file : Bytes) : nul ∉ cString file := by
  intro hmem
  have hchar := List.mem_takeWhile_imp hmem
  exact of_decide_eq_true hchar rfl

theorem cString_eq {file : Bytes} (hfile : nul ∉ file) : cString file = file := by
  apply List.takeWhile_eq_self_iff.mpr
  intro char hchar
  apply decide_eq_true
  rintro rfl
  exact hfile hchar

/-- The arguments for names without a newline are clean. -/
theorem clean_cString {file : Bytes} (hfile : newline ∉ file) : Clean (cString file) := by
  constructor
  · intro hmem
    exact hfile ((List.takeWhile_prefix _).subset hmem)
  · exact nul_notMem_cString file

theorem clean_args (hfiles : ∀ file ∈ files, newline ∉ file) :
    ∀ name ∈ files.map cString, Clean name := by
  intro name hname
  obtain ⟨file, hfile, rfl⟩ := List.mem_map.mp hname
  exact clean_cString (hfiles file hfile)

/-- If the answer is right, the names that were printed are plain. -/
theorem plain_of_rightChecksums (hfiles : ∀ file ∈ files, newline ∉ file)
    (hright : RightChecksums ndebug read files) {file : Bytes} (hfile : file ∈ files)
    (hread : (read (cString file)).isSome) : Plain (cString file) := by
  obtain ⟨fuel, md5sums, hparse, hfind, -⟩ := hright
  obtain ⟨digest, hdigest⟩ := Option.isSome_iff_exists.mp hread
  rw [md5sum, parseMd5sum_complete_iff (clean_of_mem_printed (clean_args hfiles))] at hparse
  have hname := hfind (cString file) (List.mem_map_of_mem hfile)
  rw [hdigest, hparse.2] at hname
  exact plain_of_find hname

/-- What is found for the names that were asked for, when the map is right. -/
theorem find_getD_eq {md5sums : Table Bytes Bytes}
    (hfind : ∀ name ∈ files.map cString, md5sums.find name = (read name).map Digest.text)
    (hmissing : ∀ name ∉ files.map cString, md5sums.find name = none)
    {file : Bytes} (hfile : file ∈ files) :
    (md5sums.find file).getD [] = checksumOf read file := by
  rw [checksumOf]
  by_cases hnul : nul ∈ file
  · have hmem : file ∉ files.map cString := by
      intro hmem
      obtain ⟨other, -, rfl⟩ := List.mem_map.mp hmem
      exact nul_notMem_cString other hnul
    rw [hmissing file hmem, if_pos hnul]
    rfl
  · have hmem : file ∈ files.map cString := by
      rw [← cString_eq hnul]
      exact List.mem_map_of_mem hfile
    rw [hfind file hmem, if_neg hnul]

/-- The service answers with what the parser has found. -/
theorem getFileChecksum_eq {fuel : ℕ} {md5sums : Table Bytes Bytes}
    (hfiles : ∀ file ∈ files, newline ∉ file)
    (hparse : parseMd5sum ndebug fuel (md5sum read (files.map cString)) = .ok md5sums) :
    getFileChecksum ndebug fuel (md5sum read) files =
      .ok (files.map fun file ↦ (md5sums.find file).getD []) := by
  rw [getFileChecksum]
  by_cases hnil : files = []
  · rw [if_pos hnil, hnil]
    rfl
  · have hassert : ¬ (ndebug = false ∧ ∃ file ∈ files, newline ∈ file) := by
      rintro ⟨-, file, hfile, hnewline⟩
      exact hfiles file hfile hnewline
    rw [if_neg hnil, if_neg hassert, getFileChecksumDone, hparse]
    rfl

/-- The right digests are told exactly if no file that can be read has a backslash in its name, or a
name that is too long. -/
theorem checksums_right_iff (hfiles : ∀ file ∈ files, newline ∉ file) :
    RightChecksums ndebug read files ↔
      ∀ file ∈ files, (read (cString file)).isSome → Plain (cString file) := by
  constructor
  · intro hright file hfile hread
    exact plain_of_rightChecksums hfiles hright hfile hread
  · intro hplain
    have hclean : ∀ entry ∈ printed read (files.map cString), Clean entry.1 :=
      clean_of_mem_printed (clean_args hfiles)
    have hentries : ∀ entry ∈ printed read (files.map cString), Plain entry.1 := by
      intro entry hentry
      obtain ⟨hname, hread⟩ := mem_printed.mp hentry
      obtain ⟨file, hfile, heq⟩ := List.mem_map.mp hname
      rw [← heq] at hread ⊢
      exact hplain file hfile (Option.isSome_of_mem hread)
    have hparse : parseMd5sum ndebug ((printed read (files.map cString)).length + 1)
        (md5sum read (files.map cString)) = .ok (sumsOf (printed read (files.map cString))) :=
      (parseMd5sum_complete_iff hclean).mpr ⟨Nat.lt_succ_self _, rfl⟩
    have hfind : ∀ name ∈ files.map cString,
        (sumsOf (printed read (files.map cString))).find name = (read name).map Digest.text := by
      intro name hname
      rw [find_sumsOf_printed hentries, if_pos hname]
    have hmissing : ∀ name ∉ files.map cString,
        (sumsOf (printed read (files.map cString))).find name = none := by
      intro name hname
      rw [find_sumsOf_printed hentries, if_neg hname]
    refine ⟨_, _, hparse, hfind, hmissing, ?_⟩
    rw [getFileChecksum_eq hfiles hparse]
    congr 1
    apply List.map_congr_left
    intro file hfile
    exact find_getD_eq hfind hmissing hfile

/-- The digest of nothing but zeros. -/
def zeroDigest : Digest where
  text := List.replicate 32 48
  length_text := List.length_replicate
  isHexDigit_of_mem := by
    intro char hchar
    rw [List.eq_of_mem_replicate hchar]
    rfl

theorem checksums_right_letter :
    RightChecksums true (fun _ ↦ some zeroDigest) [bytes "a"] := by
  apply (checksums_right_iff (by decide)).mpr
  intro file hfile _
  obtain rfl := List.mem_singleton.mp hfile
  exact ⟨by decide, by decide⟩

/-- The digest of a file whose name is a backslash is not told. -/
theorem not_rightChecksums_backslash :
    ¬ RightChecksums true (fun _ ↦ some zeroDigest) [[backslash]] := by
  intro hright
  have hplain := plain_of_rightChecksums (by decide) hright (List.mem_singleton_self _) rfl
  exact hplain.1 (by decide)

end Service

/-! ### Output that was cut -/

/-- The parser ends, all pieces lie in the text, and the digest of each file whose line is complete
is found under its name. -/
def Survives (ndebug : Bool) (read : Bytes → Option Digest) (args : List Bytes) (cut : Bytes) :
    Prop :=
  ∃ fuel parse,
    parseLoop ndebug cut fuel {} = .ok parse ∧
      (∀ pair ∈ parse.entries, pair.1.InBounds cut ∧ pair.2.InBounds cut) ∧
      ∀ complete, complete <+: printed read args → md5Output complete <+: cut →
        ∀ entry ∈ complete, (parse.md5sums cut).find entry.1 = some entry.2.text

section Cut

variable {ndebug : Bool} {read : Bytes → Option Digest} {args : List Bytes} {cut : Bytes}

theorem clean_of_mem_complete (hargs : ∀ name ∈ args, Clean name) {complete : List (Bytes × Digest)}
    (hcomplete : complete <+: printed read args) : ∀ entry ∈ complete, Clean entry.1 := by
  intro entry hentry
  exact clean_of_mem_printed hargs entry (hcomplete.subset hentry)

/-- Lines that are complete in the output of some lines are among these. -/
theorem prefix_of_md5Output {complete others entries : List (Bytes × Digest)}
    (hcomplete : complete <+: entries) (hothers : others <+: entries)
    (houtput : md5Output others <+: md5Output complete) : others <+: complete := by
  rcases List.prefix_or_prefix_of_prefix hothers hcomplete with hshorter | hlonger
  · exact hshorter
  · obtain ⟨more, rfl⟩ := hlonger
    have hlength := houtput.length_le
    cases more with
    | nil =>
      rw [List.append_nil]
    | cons entry more =>
      simp only [md5Output, List.flatMap_append, List.flatMap_cons, List.length_append,
        List.length_singleton] at hlength
      omega

/-- A cut text is the lines of some files, and a part of another. -/
theorem exists_complete_of_prefix (hargs : ∀ name ∈ args, Clean name)
    (hcut : cut <+: md5sum read args) :
    ∃ complete rest, complete <+: printed read args ∧ cut = md5Output complete ++ rest ∧
      newline ∉ rest ∧ nul ∉ rest := by
  rw [md5sum, md5Output_eq] at hcut
  obtain ⟨count, rest, hrest, hnewline, hnul⟩ :=
    exists_take_of_prefix (row_of_mem_md5Lines (clean_of_mem_printed hargs)) hcut
  refine ⟨(printed read args).take count, rest, List.take_prefix _ _, ?_, hnewline, hnul⟩
  rw [hrest, md5Output_eq, md5Lines, md5Lines, List.map_take]

/-- The pieces of the lines of plain names lie in these. -/
theorem inBounds_parsed {complete : List (Bytes × Digest)}
    (hclean : ∀ entry ∈ complete, Clean entry.1) (hplain : ∀ entry ∈ complete, Plain entry.1) :
    ∀ pair ∈ (parsed (md5Lines complete)).entries,
      pair.1.InBounds (md5Output complete) ∧ pair.2.InBounds (md5Output complete) := by
  intro pair hpair
  have hrows : ∀ row ∈ md5Lines complete, 34 ≤ row.length ∧ row.length < 34 + 2 ^ 31 := by
    intro row hrow
    refine ⟨(row_of_mem_md5Lines hclean row hrow).length_le, ?_⟩
    obtain ⟨entry, hentry, rfl⟩ := List.mem_map.mp hrow
    exact length_md5Line_lt (hplain entry hentry)
  have hbounds := inBounds_rowPieces [] [] hrows hpair
  rw [List.append_nil, List.nil_append, ← md5Output_eq] at hbounds
  exact hbounds

/-- The parser survives the lines of some of the files, if their names are plain. -/
theorem survives_of_complete (hargs : ∀ name ∈ args, Clean name)
    {complete : List (Bytes × Digest)} (hcomplete : complete <+: printed read args)
    (hplain : ∀ entry ∈ complete, Plain entry.1) :
    Survives ndebug read args (md5Output complete) := by
  have hclean := clean_of_mem_complete hargs hcomplete
  have hread : ∀ entry ∈ complete, read entry.1 = some entry.2 := by
    intro entry hentry
    exact (mem_printed.mp (hcomplete.subset hentry)).2
  have hloop : parseLoop ndebug (rowText (md5Lines complete)) ((md5Lines complete).length + 1) {} =
      .ok (parsed (md5Lines complete)) :=
    (parseLoop_complete_iff (row_of_mem_md5Lines hclean)).mpr ⟨Nat.lt_succ_self _, rfl⟩
  rw [← md5Output_eq] at hloop
  refine ⟨_, _, hloop, inBounds_parsed hclean hplain, ?_⟩
  intro others hothers houtput entry hentry
  have hmem : entry ∈ complete :=
    (prefix_of_md5Output hcomplete hothers houtput).subset hentry
  rw [md5sums_parsed hclean, find_sumsOf hread hplain, if_pos (List.mem_map_of_mem hmem),
    hread entry hmem]
  rfl

/-- The parser survives exactly if nothing was cut but whole lines, and the names on those that are
left are plain. -/
theorem parseMd5sum_survives_iff (hargs : ∀ name ∈ args, Clean name)
    (hcut : cut <+: md5sum read args) :
    Survives ndebug read args cut ↔
      ∃ complete, complete <+: printed read args ∧ cut = md5Output complete ∧
        ∀ entry ∈ complete, Plain entry.1 := by
  obtain ⟨complete, rest, hcomplete, rfl, hnewline, hnul⟩ := exists_complete_of_prefix hargs hcut
  have hclean := clean_of_mem_complete hargs hcomplete
  have hrows := row_of_mem_md5Lines hclean
  constructor
  · intro hsurvives
    obtain ⟨fuel, parse, hloop, -, hfind⟩ := hsurvives
    by_cases hrest : rest = []
    · subst hrest
      rw [List.append_nil] at hloop hfind ⊢
      refine ⟨complete, hcomplete, rfl, ?_⟩
      intro entry hentry
      rw [md5Output_eq, parseLoop_complete_iff hrows] at hloop
      have hname := hfind complete hcomplete List.prefix_rfl entry hentry
      rw [hloop.2, md5sums_parsed hclean] at hname
      exact plain_of_find hname
    · rw [md5Output_eq] at hloop
      exact absurd hloop (parseLoop_cut hrows hrest hnewline hnul fuel parse)
  · intro hwhole
    obtain ⟨others, hothers, heq, hplain⟩ := hwhole
    rw [heq]
    exact survives_of_complete hargs hothers hplain

theorem parseMd5sum_survives_line :
    Survives true (fun _ ↦ some zeroDigest) [bytes "a", bytes "b"]
      (md5Line (bytes "a") zeroDigest ++ [newline]) := by
  have hargs : ∀ name ∈ [bytes "a", bytes "b"], Clean name := by
    intro name hname
    constructor
    · revert name
      decide
    · revert name
      decide
  apply (parseMd5sum_survives_iff hargs (by decide)).mpr
  refine ⟨[(bytes "a", zeroDigest)], List.prefix_append _ [(bytes "b", zeroDigest)], rfl, ?_⟩
  intro entry hentry
  obtain rfl := List.mem_singleton.mp hentry
  exact ⟨by decide, by decide⟩

/-- The loop does not end when the newline of the last line was cut. -/
theorem not_survives_noNewline :
    md5Line (bytes "a") zeroDigest <+: md5sum (fun _ ↦ some zeroDigest) [bytes "a"] ∧
      ¬ Survives true (fun _ ↦ some zeroDigest) [bytes "a"] (md5Line (bytes "a") zeroDigest) := by
  constructor
  · decide
  · intro hsurvives
    obtain ⟨fuel, parse, hloop, -, -⟩ := hsurvives
    have hrows : ∀ row ∈ ([] : List Bytes), Row row := by
      intro row hrow
      cases hrow
    exact parseLoop_cut hrows (by decide) (by decide) (by decide) fuel parse hloop

end Cut

end MuduoProtorpc.Zurg
