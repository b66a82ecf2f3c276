import Matanos.Shell.Parse

/-!
A well-formed line makes the call that it spells.

* `Argument`, `Padded`, `CommandName`, `commandLine`: a line `name(arg1,arg2,arg3)`;
* `scanStage_word`, `checkParam_argument`, `findSymbol_eq`: what the stages of the shell do with the
  parts of such a line;
* `parseCommand_line`: the arrays hold the name and the texts of the arguments;
* `dispatch_faithful`: the one call that is made.
-/

namespace Matanos

/-! ### The lines -/

/-- The value of a string of digits. -/
def decimalValue (digits : List UInt8) : ℕ :=
  digits.foldl (fun i c => i * 10 + (c.toNat - 48)) 0

/-- An argument as it is written: a numeral below `2 ^ 31` or a string in quotes. -/
inductive Argument where
  | numeral (digits : List UInt8) (nonempty : digits ≠ [])
      (digit : ∀ c ∈ digits, isDigit c = true) (small : decimalValue digits < 2 ^ 31)
  | quoted (contents : List UInt8) (nonempty : contents ≠ [])
      (plain : ∀ c ∈ contents, c ≠ 34 ∧ c ≠ 44 ∧ c ≠ 41 ∧ c ≠ 0)

/-- The text of an argument. -/
def Argument.text : Argument → List UInt8
  | .numeral digits _ _ _ => digits
  | .quoted contents _ _ => 34 :: (contents ++ [34])

/-- What the function gets for an argument whose text is at the address `base`. -/
def Argument.passed (base : ℕ) : Argument → Arg
  | .numeral digits _ _ _ => ⟨decimalValue digits, none⟩
  | .quoted contents _ _ => ⟨base + 1, some contents⟩

/-- An argument with the spaces in front of it. -/
structure Padded where
  spaces : ℕ
  argument : Argument

/-- The bytes of an argument and of the spaces in front of it. -/
def Padded.bytes (a : Padded) : List UInt8 := List.replicate a.spaces 32 ++ a.argument.text

/-- What the function gets for the argument at some place of the line, `0` if there is none. -/
def passedAt (base : ℕ) (a : Option Padded) : Arg :=
  (a.map fun a => a.argument.passed base).getD ⟨0, none⟩

/-- The name of a command, without `(`, NUL and leading space. -/
structure CommandName where
  bytes : List UInt8
  noOpen : ∀ c ∈ bytes, c ≠ 40
  nonzero : ∀ c ∈ bytes, c ≠ 0
  noLeadingSpace : bytes.head? ≠ some 32

/-- The line `name(arg1,arg2,…)`. -/
def commandLine (name : CommandName) (args : List Padded) : List UInt8 :=
  name.bytes ++ 40 :: ([44].intercalate (args.map Padded.bytes) ++ [41])

/-! ### The stages of the parser -/

lemma skipSpaces_replicate {c : UInt8} (hc : c ≠ 32) (n : ℕ) (l : List UInt8) :
    skipSpaces (List.replicate n 32 ++ c :: l) = some (c :: l) := by
  induction n with
  | zero => simp [skipSpaces, hc]
  | succ n ih => simpa [List.replicate_succ, skipSpaces] using ih

lemma copyUntil_append {stop : UInt8 → Bool} {d : UInt8} (hd : stop d = true) (l : List UInt8) :
    ∀ (w : List UInt8) (n : ℕ), (∀ c ∈ w, stop c = false) → w.length ≤ n →
      copyUntil stop n (w ++ d :: l) = some (w, d :: l)
  | [], 0, _, _ => rfl
  | [], n + 1, _, _ => by simp [copyUntil, hd]
  | c :: w, n + 1, hw, hn => by
      have hc : stop c = false := hw c (by simp)
      have hrest := copyUntil_append hd l w n (fun c hc => hw c (by simp [hc])) (by simpa using hn)
      simp [copyUntil, hc, hrest]

/-- A stage copies a word that starts with no space. -/
lemma scanStage_word {stop : UInt8 → Bool} {w l : List UInt8} {d : UInt8} (hd : stop d = true)
    (hw : ∀ c ∈ w, stop c = false) (hlen : w.length ≤ 256) (hhead : (w ++ [d]).head? ≠ some 32)
    (n : ℕ) :
    scanStage stop (List.replicate n 32 ++ (w ++ d :: l)) = some (w, l) := by
  have hskip : skipSpaces (List.replicate n 32 ++ (w ++ d :: l)) = some (w ++ d :: l) := by
    cases w with
    | nil => exact skipSpaces_replicate (by simpa using hhead) n l
    | cons c w => exact skipSpaces_replicate (by simpa using hhead) n _
  simp [scanStage, hskip, copyUntil_append hd l w maxCommandSize hw hlen]

namespace Argument

lemma text_ne_nil (a : Argument) : a.text ≠ [] := by
  cases a with
  | numeral digits nonempty _ _ => exact nonempty
  | quoted contents _ _ => simp [text]

/-- No delimiter stands in an argument. -/
lemma text_plain (a : Argument) : ∀ c ∈ a.text, c ≠ 44 ∧ c ≠ 41 ∧ c ≠ 0 := by
  intro c hc
  cases a with
  | numeral digits _ digit _ =>
      have h := digit c hc
      simp only [isDigit, Bool.and_eq_true, decide_eq_true_eq, UInt8.le_iff_toNat_le] at h
      refine ⟨?_, ?_, ?_⟩ <;> rintro rfl <;> simp at h
  | quoted contents _ plain =>
      simp only [text, List.mem_cons, List.mem_append, List.not_mem_nil, or_false] at hc
      rcases hc with rfl | hc | rfl
      · decide
      · exact (plain c hc).2
      · decide

/-- An argument does not start with a space. -/
lemma text_head (a : Argument) : a.text.head? ≠ some 32 := by
  cases a with
  | numeral digits _ digit _ =>
      intro h
      have hdigit := digit 32 (List.mem_of_mem_head? h)
      exact absurd hdigit (by decide)
  | quoted contents _ _ => simp [text]

end Argument

namespace Padded

lemma bytes_length (a : Padded) : a.bytes.length = a.spaces + a.argument.text.length := by
  simp [bytes]

/-- The bytes of an argument start with a byte that ends no stage. -/
lemma bytes_eq_cons (a : Padded) :
    ∃ c l, a.bytes = c :: l ∧ c ≠ 0 ∧ c ≠ 41 := by
  obtain ⟨c, l, hcl⟩ := List.exists_cons_of_ne_nil a.argument.text_ne_nil
  cases hn : a.spaces with
  | zero =>
      obtain ⟨-, h41, h0⟩ := a.argument.text_plain c (by simp [hcl])
      exact ⟨c, l, by simp [bytes, hn, hcl], h0, h41⟩
  | succ n =>
      exact ⟨32, List.replicate n 32 ++ a.argument.text, by simp [bytes, hn, List.replicate_succ],
        by decide, by decide⟩

lemma scanStage_bytes {stop : UInt8 → Bool} {d : UInt8} (a : Padded) (hd : stop d = true)
    (hspace : ∀ c, c ≠ 44 ∧ c ≠ 41 ∧ c ≠ 0 → stop c = false) (hlen : a.bytes.length ≤ 256)
    (l : List UInt8) :
    scanStage stop (a.bytes ++ d :: l) = some (a.argument.text, l) := by
  rw [bytes, List.append_assoc]
  refine scanStage_word hd (fun c hc => hspace c (a.argument.text_plain c hc)) ?_ ?_ a.spaces
  · rw [bytes_length] at hlen
    omega
  · rw [List.head?_append_of_ne_nil _ a.argument.text_ne_nil]
    exact a.argument.text_head

end Padded

lemma isCommaOrClose_plain (c : UInt8) (hc : c ≠ 44 ∧ c ≠ 41 ∧ c ≠ 0) :
    isCommaOrClose c = false := by
  simp [isCommaOrClose, hc.1, hc.2.1]

lemma isClose_plain (c : UInt8) (hc : c ≠ 44 ∧ c ≠ 41 ∧ c ≠ 0) : isClose c = false := by
  simp [isClose, hc.2.1]

/-- The third argument. -/
lemma parseParam3_close (p : Parsed) (a : Padded) (ha : a.bytes.length ≤ 256) (l : List UInt8) :
    parseParam3 p (a.bytes ++ 41 :: l) = some { p with param3 := a.argument.text } := by
  have hscan := a.scanStage_bytes (show isClose 41 = true by decide) isClose_plain ha l
  obtain ⟨c, w, hcw, h0, -⟩ := a.bytes_eq_cons
  rw [hcw, List.cons_append] at hscan ⊢
  simp [parseParam3, h0, hscan]

/-- The second argument, in front of a third one. -/
lemma parseParam2_comma (p : Parsed) (a b : Padded) (ha : a.bytes.length ≤ 256)
    (l : List UInt8) :
    parseParam2 p (a.bytes ++ 44 :: (b.bytes ++ l))
      = parseParam3 { p with param2 := a.argument.text } (b.bytes ++ l) := by
  have hscan := a.scanStage_bytes (show isCommaOrClose 44 = true by decide) isCommaOrClose_plain ha
    (b.bytes ++ l)
  obtain ⟨d, v, hdv, -, h41⟩ := b.bytes_eq_cons
  obtain ⟨c, w, hcw, h0, -⟩ := a.bytes_eq_cons
  rw [hcw, hdv, List.cons_append, List.cons_append] at hscan ⊢
  simp [parseParam2, h0, hscan, h41]

/-- The second argument, at the end of the line. -/
lemma parseParam2_close (p : Parsed) (a : Padded) (ha : a.bytes.length ≤ 256) (l : List UInt8) :
    parseParam2 p (a.bytes ++ 41 :: 0 :: l) = some { p with param2 := a.argument.text } := by
  have hscan := a.scanStage_bytes (show isCommaOrClose 41 = true by decide) isCommaOrClose_plain ha
    (0 :: l)
  obtain ⟨b, w, hbw, h0, -⟩ := a.bytes_eq_cons
  rw [hbw, List.cons_append] at hscan ⊢
  simp [parseParam2, h0, hscan, parseParam3]

/-- The first argument, in front of a second one. -/
lemma parseParam1_comma (p : Parsed) (a b : Padded) (ha : a.bytes.length ≤ 256)
    (l : List UInt8) :
    parseParam1 p (a.bytes ++ 44 :: (b.bytes ++ l))
      = parseParam2 { p with param1 := a.argument.text } (b.bytes ++ l) := by
  have hscan := a.scanStage_bytes (show isCommaOrClose 44 = true by decide) isCommaOrClose_plain ha
    (b.bytes ++ l)
  obtain ⟨d, v, hdv, -, h41⟩ := b.bytes_eq_cons
  obtain ⟨c, w, hcw, h0, -⟩ := a.bytes_eq_cons
  rw [hcw, hdv, List.cons_append, List.cons_append] at hscan ⊢
  simp [parseParam1, h0, hscan, h41]

/-- The first argument, at the end of the line. -/
lemma parseParam1_close (p : Parsed) (a : Padded) (ha : a.bytes.length ≤ 256) (l : List UInt8) :
    parseParam1 p (a.bytes ++ 41 :: 0 :: l) = some { p with param1 := a.argument.text } := by
  have hscan := a.scanStage_bytes (show isCommaOrClose 41 = true by decide) isCommaOrClose_plain ha
    (0 :: l)
  obtain ⟨b, w, hbw, h0, -⟩ := a.bytes_eq_cons
  rw [hbw, List.cons_append] at hscan ⊢
  simp [parseParam1, h0, hscan, parseParam2]

/-- The line has no argument. -/
lemma parseParam1_empty (p : Parsed) (l : List UInt8) :
    parseParam1 p (41 :: 0 :: l) = some { p with param1 := [] } := by
  have hscan : scanStage isCommaOrClose (41 :: 0 :: l) = some ([], 0 :: l) := by
    simp [scanStage, skipSpaces, copyUntil, maxCommandSize, isCommaOrClose]
  simp [parseParam1, hscan, parseParam2]

/-- The name of the command. -/
lemma parseCommand_name (name : CommandName) (hname : name.bytes.length ≤ 256) (l : List UInt8) :
    parseCommand (name.bytes ++ 40 :: l) = parseParam1 ⟨name.bytes, [], [], []⟩ l := by
  have hhead : (name.bytes ++ [40]).head? ≠ some 32 := by
    have h := name.noLeadingSpace
    cases hb : name.bytes with
    | nil => simp
    | cons c w => simpa [hb] using h
  have hscan : scanStage isOpen (name.bytes ++ 40 :: l) = some (name.bytes, l) :=
    scanStage_word (by decide) (fun c hc => by simp [isOpen, name.noOpen c hc]) hname hhead 0
  cases hb : name.bytes with
  | nil =>
      rw [hb, List.nil_append] at hscan
      simp [parseCommand, hscan]
  | cons c w =>
      have h0 : c ≠ 0 := name.nonzero c (by simp [hb])
      rw [hb, List.cons_append] at hscan
      simp [parseCommand, h0, hscan]

/-- The text of the argument at some place of the line. -/
def textAt (a : Option Padded) : List UInt8 := (a.map fun a => a.argument.text).getD []

/-- The parser finds the name and the arguments of a line. -/
lemma parseCommand_line (name : CommandName) (args : List Padded) (hargs : args.length ≤ 3)
    (hline : (commandLine name args).length < 256) (rest : List UInt8) :
    parseCommand (commandLine name args ++ 0 :: rest)
      = some ⟨name.bytes, textAt args[0]?, textAt args[1]?, textAt args[2]?⟩ := by
  simp only [commandLine, List.length_append, List.length_cons, List.length_nil] at hline
  rw [commandLine, List.append_assoc, List.cons_append, parseCommand_name name (by omega),
    List.append_assoc, List.singleton_append]
  match args, hargs with
  | [], _ =>
      exact parseParam1_empty _ rest
  | [a], _ =>
      simp only [List.map_cons, List.map_nil, List.intercalate_singleton] at hline ⊢
      exact parseParam1_close _ a (by omega) rest
  | [a, b], _ =>
      simp only [List.map_cons, List.map_nil, List.intercalate_cons_cons,
        List.intercalate_singleton, List.append_assoc, List.cons_append, List.nil_append,
        List.length_append, List.length_cons] at hline ⊢
      rw [parseParam1_comma _ a b (by omega)]
      exact parseParam2_close _ b (by omega) rest
  | [a, b, d], _ =>
      simp only [List.map_cons, List.map_nil, List.intercalate_cons_cons,
        List.intercalate_singleton, List.append_assoc, List.cons_append, List.nil_append,
        List.length_append, List.length_cons] at hline ⊢
      rw [parseParam1_comma _ a b (by omega), parseParam2_comma _ b d (by omega)]
      exact parseParam3_close _ d (by omega) (0 :: rest)

/-! ### The arguments of the call -/

lemma foldl_decimal_le (digits : List UInt8) (i : ℕ) :
    i ≤ digits.foldl (fun i c => i * 10 + (c.toNat - 48)) i := by
  induction digits generalizing i with
  | nil => exact le_rfl
  | cons c digits ih =>
      calc i ≤ i * 10 + (c.toNat - 48) := by omega
        _ ≤ _ := ih _

/-- The value of a numeral is computed without a carry out of 32 bits. -/
lemma skipAtoi_digits (digits l : List UInt8) (hdigits : ∀ c ∈ digits, isDigit c = true) (i : ℕ)
    (hsmall : digits.foldl (fun i c => i * 10 + (c.toNat - 48)) i < 2 ^ 31) :
    skipAtoi i (digits ++ 0 :: l)
      = some (digits.foldl (fun i c => i * 10 + (c.toNat - 48)) i) := by
  induction digits generalizing i with
  | nil => simp [skipAtoi, isDigit]
  | cons c digits ih =>
      have hle := foldl_decimal_le digits (i * 10 + (c.toNat - 48))
      rw [List.foldl_cons] at hsmall ⊢
      rw [List.cons_append, skipAtoi, if_pos (hdigits c (by simp)), Nat.mod_eq_of_lt (by omega)]
      exact ih (fun c hc => hdigits c (by simp [hc])) _ hsmall

/-- An array that is not full ends with a NUL. -/
lemma buffer_eq (copy : List UInt8) (hcopy : copy.length < 256) :
    ∃ l, buffer copy = copy ++ 0 :: l := by
  refine ⟨List.replicate (255 - copy.length) 0, ?_⟩
  rw [buffer, maxCommandSize, show 256 - copy.length = (255 - copy.length) + 1 by omega,
    List.replicate_succ]

lemma checkParam_empty (base : ℕ) : checkParam base (buffer []) = some ⟨0, none⟩ := by
  obtain ⟨l, hl⟩ := buffer_eq [] (by simp)
  rw [hl, List.nil_append]
  simp [checkParam, skipSpaces, skipAtoi, isDigit]

/-- A string in quotes is found, and its closing quote made a NUL. -/
lemma checkParam_quoted (base : ℕ) (contents l : List UInt8) (hne : contents ≠ [])
    (hplain : ∀ c ∈ contents, c ≠ 34 ∧ c ≠ 44 ∧ c ≠ 41 ∧ c ≠ 0) :
    checkParam base (34 :: (contents ++ 34 :: l)) = some ⟨base + 1, some contents⟩ := by
  obtain ⟨c, w, rfl⟩ := List.exists_cons_of_ne_nil hne
  have hw : (w ++ 34 :: l).takeWhile (· ≠ 34) = w := by
    have hquote : ∀ b ∈ w, decide (b ≠ 34) = true := by
      intro b hb
      simpa using (hplain b (by simp [hb])).1
    rw [List.takeWhile_append_of_pos hquote]
    simp
  have hstring : stringIn (c :: (w ++ [0])) = c :: w := by
    have hzero : ∀ b ∈ c :: w, decide (b ≠ 0) = true := by
      intro b hb
      simpa using (hplain b hb).2.2.2
    rw [stringIn, ← List.cons_append, List.takeWhile_append_of_pos hzero]
    simp
  simp only [ne_eq, decide_not] at hw
  simp [checkParam, skipSpaces, hw, hstring]

/-- What `check_param` makes of an argument. -/
lemma checkParam_argument (base : ℕ) (a : Argument) (hlen : a.text.length < 256) :
    checkParam base (buffer a.text) = some (a.passed base) := by
  obtain ⟨l, hl⟩ := buffer_eq a.text hlen
  rw [hl]
  cases a with
  | numeral digits nonempty digit small =>
      obtain ⟨c, w, rfl⟩ := List.exists_cons_of_ne_nil nonempty
      have hc := digit c (by simp)
      have h32 : c ≠ 32 := by
        rintro rfl
        exact absurd hc (by decide)
      have h34 : c ≠ 34 := by
        rintro rfl
        exact absurd hc (by decide)
      have hvalue := skipAtoi_digits (c :: w) l digit 0 small
      rw [List.cons_append] at hvalue
      simp [checkParam, Argument.text, Argument.passed, skipSpaces, h32, h34, hvalue, decimalValue]
  | quoted contents nonempty plain =>
      have h := checkParam_quoted base contents (0 :: l) nonempty plain
      simpa [Argument.text, Argument.passed] using h

lemma checkParam_textAt (base : ℕ) (a : Option Padded) (hlen : (textAt a).length < 256) :
    checkParam base (buffer (textAt a)) = some (passedAt base a) := by
  cases a with
  | none => exact checkParam_empty base
  | some a => exact checkParam_argument base a.argument hlen

lemma length_le_intercalate (sep w : List UInt8) (ls : List (List UInt8)) (hw : w ∈ ls) :
    w.length ≤ (sep.intercalate ls).length := by
  induction ls with
  | nil => simp at hw
  | cons v ls ih =>
      by_cases hls : ls = []
      · subst hls
        simp_all
      · rw [List.intercalate_cons_of_ne_nil hls, List.length_append, List.length_append]
        rcases List.mem_cons.mp hw with rfl | hw
        · omega
        · have hle := ih hw
          omega

/-- No argument is longer than the line. -/
lemma textAt_length (name : CommandName) (args : List Padded)
    (hline : (commandLine name args).length < 256) (i : ℕ) : (textAt args[i]?).length < 256 := by
  cases hi : args[i]? with
  | none => simp [textAt]
  | some a =>
      have hmem : a.bytes ∈ args.map Padded.bytes :=
        List.mem_map_of_mem (List.mem_of_getElem? hi)
      have hle := length_le_intercalate [44] a.bytes _ hmem
      have hbytes := a.bytes_length
      simp only [commandLine, List.length_append, List.length_cons] at hline
      simp only [textAt, Option.map_some, Option.getD_some]
      omega

/-! ### The function that is called -/

/-- Two bytes are one `char` only if they are equal. -/
lemma charOf_inj {a b : UInt8} (h : charOf a = charOf b) : a = b := by
  have ha := a.toNat_lt
  have hb := b.toNat_lt
  apply UInt8.toNat_inj.mp
  unfold charOf at h
  split_ifs at h with h1 h2 h2 <;> rw [UInt8.lt_iff_toNat_lt] at h1 h2 <;> simp at h1 h2 <;> omega

/-- `strcmp` tells strings apart. -/
lemma strcmp_string (k l : List UInt8) : ∀ a b : List UInt8, (∀ c ∈ a, c ≠ 0) →
    (∀ c ∈ b, c ≠ 0) → ∃ d, strcmp (a ++ 0 :: k) (b ++ 0 :: l) = some d ∧ (d = 0 ↔ a = b)
  | [], [], _, _ => ⟨0, by simp [strcmp], by simp⟩
  | [], c :: b, _, hb => by
      have hc : (0 : UInt8) ≠ c := (hb c (by simp)).symm
      refine ⟨charOf 0 - charOf c, by simp [strcmp, hc], ?_⟩
      have hne : charOf 0 - charOf c ≠ 0 := fun h => hc (charOf_inj (by omega))
      simp [hne]
  | c :: a, [], ha, _ => by
      have hc : c ≠ 0 := ha c (by simp)
      refine ⟨charOf c - charOf 0, by simp [strcmp, hc], ?_⟩
      have hne : charOf c - charOf 0 ≠ 0 := fun h => hc (charOf_inj (by omega))
      simp [hne]
  | c :: a, d :: b, ha, hb => by
      have hc : c ≠ 0 := ha c (by simp)
      by_cases hcd : c = d
      · subst hcd
        obtain ⟨e, he, hiff⟩ := strcmp_string k l a b (fun c h => ha c (by simp [h]))
          (fun c h => hb c (by simp [h]))
        exact ⟨e, by simp [strcmp, hc, he], by simp [hiff]⟩
      · refine ⟨charOf c - charOf d, by simp [strcmp, hcd], ?_⟩
        have hne : charOf c - charOf d ≠ 0 := fun h => hcd (charOf_inj (by omega))
        simp [hne, hcd]

/-- The function that is called is the value of the first symbol with the name. -/
lemma findSymbol_eq (name l : List UInt8) (hname : ∀ c ∈ name, c ≠ 0) (symbols : List Symbol)
    (symbol : Symbol) (hfind : symbols.find? (fun s => s.name.bytes = name) = some symbol)
    (hvalue : symbol.stValue ≠ 0) :
    findSymbol (name ++ 0 :: l) symbols = some (some symbol.stValue) := by
  induction symbols with
  | nil => simp at hfind
  | cons s symbols ih =>
      obtain ⟨d, hd, hiff⟩ := strcmp_string [] l s.name.bytes name s.name.nonzero hname
      by_cases hs : s.name.bytes = name
      · obtain rfl : s = symbol := by simpa [List.find?_cons, hs] using hfind
        simp [findSymbol, hd, hiff.mpr hs, hvalue]
      · have hne : d ≠ 0 := fun h => hs (hiff.mp h)
        rw [List.find?_cons_of_neg (by simpa using hs)] at hfind
        simp [findSymbol, hd, hne, ih hfind]

/-- The shell makes the call that a line spells: to the value of the first symbol with the name,
with each numeral as its value, each string as a pointer to its contents and `0` for each missing
argument, whatever is behind the line in memory. -/
theorem dispatch_faithful (symbols : List Symbol) (frame : ParamArrays) (name : CommandName)
    (args : List Padded) (rest : List UInt8) (symbol : Symbol) (hargs : args.length ≤ 3)
    (hline : (commandLine name args).length < 256)
    (hfind : symbols.find? (fun s => s.name.bytes = name.bytes) = some symbol)
    (hvalue : symbol.stValue ≠ 0) :
    ∃ effect,
      parseCommandAndRun symbols frame (commandLine name args ++ 0 :: rest) = some effect ∧
      effect.call = some (some ⟨symbol.stValue, passedAt frame.param1 args[0]?,
        passedAt frame.param2 args[1]?, passedAt frame.param3 args[2]?⟩) := by
  have hparse := parseCommand_line name args hargs hline rest
  refine ⟨_, by rw [parseCommandAndRun, hparse, Option.map_some], ?_⟩
  have hlen : ∀ i, (textAt args[i]?).length < 256 := textAt_length name args hline
  obtain ⟨l, hl⟩ := buffer_eq name.bytes (by simp [commandLine] at hline; omega)
  have hfunc := findSymbol_eq name.bytes l name.nonzero symbols symbol hfind hvalue
  simp only [effectOf, checkParam_textAt _ _ (hlen _), runCommand, Option.bind_some, hl, hfunc,
    Option.map_some]

/-- The line `f( "a",7)`. -/
theorem dispatch_faithful_two_arguments :
    ∃ effect,
      parseCommandAndRun [⟨⟨[102], by simp⟩, 16⟩] ⟨100, 400, 700⟩
        ([102, 40, 32, 34, 97, 34, 44, 55, 41] ++ 0 :: []) = some effect ∧
      effect.call = some (some ⟨16, ⟨101, some [97]⟩, ⟨7, none⟩, ⟨0, none⟩⟩) :=
  dispatch_faithful [⟨⟨[102], by simp⟩, 16⟩] ⟨100, 400, 700⟩ ⟨[102], by simp, by simp, by simp⟩
    [⟨1, .quoted [97] (by simp) (by simp)⟩, ⟨0, .numeral [55] (by simp) (by simp [isDigit]) (by decide)⟩]
    [] ⟨⟨[102], by simp⟩, 16⟩ (by decide) (by decide) (by simp) (by decide)

end Matanos
