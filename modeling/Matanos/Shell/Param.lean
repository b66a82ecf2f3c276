import Mathlib.Data.List.TakeWhile
import Matanos.Shell.Stale

/-!
`check_param` of `kernel/shell.c` with its indices, on an array of bytes that it must not leave.

* `scan`: a loop that counts an index up to a byte, from a pointer into the array;
* `checkParamArray`: the function, with the array that it leaves; `checkParam_eq`: the value and the string
  are those of `checkParam`;
* `QuoteBehind`: a text whose quotes the function finds;
* `check_param_inside_iff`: these are the texts on which it stays in the array and finds the string between
  the quotes.
-/

namespace Matanos

/-- A loop `while (p[i] ...) i++` for less than `n` turns, where `p` points to the byte `p` of the array;
`none` is a read behind the array. -/
def scan (stop : UInt8 → Bool) (param : List UInt8) (p : ℕ) : ℕ → ℕ → Option ℕ
  | 0, _ => none
  | n + 1, i =>
      match param[p + i]? with
      | none => none
      | some c => if stop c then some i else scan stop param p n (i + 1)

/-- What `check_param` returns: a number, or a pointer to a byte of the array. -/
inductive ParamValue
  | number (n : ℕ)
  | pointer (p : ℕ)
deriving DecidableEq

/-- `check_param`: its value and the array. -/
def checkParamArray (param : List UInt8) : Option (ParamValue × List UInt8) :=
  let turns := param.length + 1
  (scan (· ≠ 32) param 0 turns 0).bind fun i =>
    if param[i]? = some 34 then
      let newParam := 1
      let i := i + 1
      (scan (· = 34) param newParam turns i).map fun i =>
        (.pointer newParam, param.set (newParam + i) 0)
    else (skipAtoi 0 param).map fun n => (.number n, param)

/-- The value as the shell passes it on, for an array at `base`. -/
def ParamValue.passed (base : ℕ) (param : List UInt8) : ParamValue → Arg
  | number n => ⟨n, none⟩
  | pointer p => ⟨base + p, some (stringIn (param.drop p))⟩

/-! ### The loop -/

variable {stop : UInt8 → Bool} {param before skipped rest : List UInt8} {c : UInt8} {p n i : ℕ}

lemma scan_found (hskipped : ∀ b ∈ skipped, stop b = false) (hc : stop c = true)
    (hlen : before.length = p + i) (hn : skipped.length < n) :
    scan stop (before ++ (skipped ++ c :: rest)) p n i = some (i + skipped.length) := by
  induction skipped generalizing before i n with
  | nil =>
      obtain ⟨n, rfl⟩ := Nat.exists_eq_succ_of_ne_zero (Nat.ne_of_gt hn)
      have hget : (before ++ ([] ++ c :: rest))[p + i]? = some c := by
        rw [← hlen, List.nil_append, List.getElem?_append_right le_rfl, Nat.sub_self,
          List.getElem?_cons_zero]
      simp only [scan, hget, hc, if_true, List.length_nil, Nat.add_zero]
  | cons b skipped ih =>
      obtain ⟨n, rfl⟩ := Nat.exists_eq_succ_of_ne_zero (Nat.ne_of_gt (Nat.zero_lt_of_lt hn))
      have hget : (before ++ (b :: skipped ++ c :: rest))[p + i]? = some b := by
        rw [← hlen, List.cons_append, List.getElem?_append_right le_rfl, Nat.sub_self,
          List.getElem?_cons_zero]
      have hb : stop b = false := hskipped b List.mem_cons_self
      have hshift : before ++ (b :: skipped ++ c :: rest) = (before ++ [b]) ++ (skipped ++ c :: rest) := by
        simp
      simp only [scan, hget, hb, Bool.false_eq_true, if_false]
      rw [hshift, ih (fun b hb => hskipped b (List.mem_cons_of_mem _ hb))
        (by simp [hlen]; omega) (by simpa using hn), List.length_cons]
      congr 1
      omega

lemma scan_none (hrest : ∀ b ∈ param.drop (p + i), stop b = false) : scan stop param p n i = none := by
  induction n generalizing i with
  | zero => rfl
  | succ n ih =>
      cases hget : param[p + i]? with
      | none => simp [scan, hget]
      | some b =>
          have hlt : p + i < param.length := (List.getElem?_eq_some_iff.mp hget).1
          have hcons : param.drop (p + i) = b :: param.drop (p + i + 1) := by
            rw [List.drop_eq_getElem_cons hlt, (List.getElem?_eq_some_iff.mp hget).2]
          rw [hcons] at hrest
          have hb : stop b = false := hrest b List.mem_cons_self
          simp only [scan, hget, hb, Bool.false_eq_true, if_false]
          exact ih fun x hx => hrest x (List.mem_cons_of_mem _ hx)

/-! ### The function on a text -/

/-- Where the text has a quote behind any spaces, it has another one behind the byte after it; that byte is
no quote if there are no spaces. -/
def QuoteBehind (text : List UInt8) : Prop :=
  let quoted := text.dropWhile (· = 32)
  quoted.head? = some 34 →
    34 ∈ quoted.drop 2 ∧ (quoted = text → quoted[1]? ≠ some 34)

/-- On the array that holds the text the function stays inside it, and returns a pointer to the string
between the first two quotes of a text that starts with one. -/
def ParamInside (text : List UInt8) : Prop :=
  ∃ v param, checkParamArray (buffer text) = some (v, param) ∧
    ∀ s rest, text = 34 :: (s ++ 34 :: rest) → 34 ∉ s →
      ∃ p behind, v = .pointer p ∧ param.drop p = s ++ 0 :: behind

variable {text : List UInt8}

/-- The first loop. -/
lemma scan_spaces {spaces : List UInt8} (hspaces : ∀ b ∈ spaces, b = 32) (hc : c ≠ 32) :
    scan (· ≠ 32) (spaces ++ c :: rest) 0 ((spaces ++ c :: rest).length + 1) 0 = some spaces.length := by
  have hscan : scan (· ≠ 32) ([] ++ (spaces ++ c :: rest)) 0 ((spaces ++ c :: rest).length + 1) 0
      = some (0 + spaces.length) :=
    scan_found (fun b hb => by simp [hspaces b hb]) (by simp [hc]) rfl
      (by rw [List.length_append]; omega)
  rwa [List.nil_append, Nat.zero_add] at hscan

/-- Without a quote the function reads a number. -/
lemma checkParamArray_number {spaces : List UInt8} (hspaces : ∀ b ∈ spaces, b = 32) (hc : c ≠ 32)
    (hquote : c ≠ 34) :
    checkParamArray (spaces ++ c :: rest)
      = (skipAtoi 0 (spaces ++ c :: rest)).map fun n => (.number n, spaces ++ c :: rest) := by
  have hget : (spaces ++ c :: rest)[spaces.length]? = some c := by
    rw [List.getElem?_append_right le_rfl, Nat.sub_self, List.getElem?_cons_zero]
  simp only [checkParamArray, scan_spaces hspaces hc, Option.bind_some, hget, Option.some.injEq, hquote,
    if_false]

/-- With a quote it looks for another one behind the next byte. -/
lemma checkParamArray_quote {spaces : List UInt8} (hspaces : ∀ b ∈ spaces, b = 32) :
    checkParamArray (spaces ++ 34 :: rest)
      = (scan (· = 34) (spaces ++ 34 :: rest) 1 ((spaces ++ 34 :: rest).length + 1)
          (spaces.length + 1)).map fun i => (.pointer 1, (spaces ++ 34 :: rest).set (1 + i) 0) := by
  have hget : (spaces ++ 34 :: rest)[spaces.length]? = some 34 := by
    rw [List.getElem?_append_right le_rfl, Nat.sub_self, List.getElem?_cons_zero]
  simp only [checkParamArray, scan_spaces hspaces (show (34 : UInt8) ≠ 32 by decide), Option.bind_some,
    hget, if_true]

lemma checkParamArray_closed {spaces s : List UInt8} {b : UInt8} (hspaces : ∀ b ∈ spaces, b = 32)
    (hs : 34 ∉ s) :
    checkParamArray (spaces ++ 34 :: b :: (s ++ 34 :: rest))
      = some (.pointer 1, spaces ++ 34 :: b :: (s ++ 0 :: rest)) := by
  have happend : ∀ l : List UInt8, spaces ++ 34 :: b :: l = (spaces ++ [34, b]) ++ l := fun l => by simp
  have hlen : (spaces ++ [34, b]).length = 1 + (spaces.length + 1) := by
    simp only [List.length_append, List.length_cons, List.length_nil]
    omega
  have hscan : scan (· = 34) (spaces ++ [34, b] ++ (s ++ 34 :: rest)) 1
      ((spaces ++ [34, b] ++ (s ++ 34 :: rest)).length + 1) (spaces.length + 1)
      = some (spaces.length + 1 + s.length) :=
    scan_found (fun x hx => decide_eq_false fun h => hs (h ▸ hx)) (by decide) hlen
      (by simp only [List.length_append, List.length_cons]; omega)
  have hset : (spaces ++ [34, b] ++ (s ++ 34 :: rest)).set (1 + (spaces.length + 1 + s.length)) 0
      = spaces ++ [34, b] ++ (s ++ 0 :: rest) := by
    rw [List.set_append_right _ _ (by omega), List.set_append_right _ _ (by omega), hlen]
    rw [show 1 + (spaces.length + 1 + s.length) - (1 + (spaces.length + 1)) - s.length = 0 by omega,
      List.set_cons_zero]
  rw [checkParamArray_quote hspaces, happend (s ++ 34 :: rest), hscan, Option.map_some, hset,
    happend (s ++ 0 :: rest)]

lemma checkParamArray_open {spaces : List UInt8} (hspaces : ∀ b ∈ spaces, b = 32)
    (hrest : 34 ∉ rest.drop 1) : checkParamArray (spaces ++ 34 :: rest) = none := by
  have hdrop : (spaces ++ 34 :: rest).drop (1 + (spaces.length + 1)) = rest.drop 1 := by
    rw [show 1 + (spaces.length + 1) = spaces.length + 2 by omega, List.drop_append,
      List.drop_of_length_le (by omega)]
    simp
  rw [checkParamArray_quote hspaces, scan_none, Option.map_none]
  rw [hdrop]
  exact fun x hx => decide_eq_false fun h => hrest (h ▸ hx)

lemma takeWhile_ne_quote {s : List UInt8} (hs : 34 ∉ s) :
    (s ++ 34 :: rest).takeWhile (· ≠ 34) = s := by
  have hne : ∀ b ∈ s, decide (b ≠ 34) = true := by
    intro b hb
    rw [decide_eq_true_eq]
    rintro rfl
    exact hs hb
  rw [List.takeWhile_append_of_pos hne]
  simp

/-- A text is spaces, and what is behind them. -/
lemma exists_spaces (l : List UInt8) :
    ∃ spaces, l = spaces ++ l.dropWhile (· = 32) ∧ ∀ b ∈ spaces, b = 32 :=
  ⟨l.takeWhile (· = 32), (List.takeWhile_append_dropWhile).symm,
    fun b hb => by simpa using List.mem_takeWhile_imp hb⟩

lemma head_dropWhile_spaces {l : List UInt8} (h : l.dropWhile (· = 32) = c :: rest) : c ≠ 32 := by
  have hhead := List.head?_dropWhile_not (· = 32) l
  rw [h] at hhead
  simpa using hhead

lemma skipSpaces_append {spaces : List UInt8} (hspaces : ∀ b ∈ spaces, b = 32) (hc : c ≠ 32) :
    skipSpaces (spaces ++ c :: rest) = some (c :: rest) := by
  rw [List.eq_replicate_of_mem hspaces]
  exact skipSpaces_replicate hc _ _

lemma stringIn_append_nul (l rest rest' : List UInt8) :
    stringIn (l ++ 0 :: rest) = stringIn (l ++ 0 :: rest') := by
  induction l with
  | nil => rfl
  | cons b l ih =>
      simp only [stringIn, List.cons_append, List.takeWhile_cons] at ih ⊢
      rw [ih]

lemma skipSpaces_none {spaces : List UInt8} (hspaces : ∀ b ∈ spaces, b = 32) :
    skipSpaces spaces = none := by
  induction spaces with
  | nil => rfl
  | cons b spaces ih =>
      rw [skipSpaces, if_pos (hspaces b List.mem_cons_self)]
      exact ih fun b hb => hspaces b (List.mem_cons_of_mem _ hb)

/-- **The function returns what `checkParam` does**, with the string that is left in the array. -/
lemma checkParam_eq (base : ℕ) (param : List UInt8) :
    checkParam base param
      = (checkParamArray param).map fun (v, param) => v.passed base param := by
  obtain ⟨spaces, hparam, hspaces⟩ := exists_spaces param
  cases hrest : param.dropWhile (· = 32) with
  | nil =>
      rw [hrest, List.append_nil] at hparam
      rw [hparam, checkParam, skipSpaces_none hspaces, checkParamArray, scan_none]
      · rfl
      · intro b hb
        simp [hspaces b (List.mem_of_mem_drop hb)]
  | cons c rest =>
      have hc := head_dropWhile_spaces hrest
      rw [hrest] at hparam
      rw [hparam, checkParam, skipSpaces_append hspaces hc]
      have hi : (spaces ++ c :: rest).length - (c :: rest).length = spaces.length := by simp
      by_cases hquote : c = 34
      · subst hquote
        have hsearched : ((spaces ++ 34 :: rest).drop 1).drop (spaces.length + 1) = rest.drop 1 := by
          rw [List.drop_drop, show 1 + (spaces.length + 1) = spaces.length + 2 by omega,
            List.drop_append, List.drop_of_length_le (by omega)]
          simp
        simp only [Option.bind_some, hi, List.head?_cons, if_true, hsearched]
        by_cases hclosed : 34 ∈ rest.drop 1
        · obtain ⟨s, behind, hs, hnot⟩ := List.eq_append_cons_of_mem hclosed
          obtain ⟨b, rest, rfl⟩ : ∃ b rest', rest = b :: rest' :=
            List.exists_cons_of_ne_nil (by rintro rfl; simp at hclosed)
          simp only [List.drop_succ_cons, List.drop_zero] at hs hclosed ⊢
          subst hs
          have htake : (s ++ 34 :: behind).takeWhile (· ≠ 34) = s := takeWhile_ne_quote hnot
          have hskipped : ((spaces ++ 34 :: b :: (s ++ 34 :: behind)).drop 1).take (spaces.length + 1)
              = (spaces ++ [34, b]).drop 1 := by
            cases spaces with
            | nil => simp
            | cons d spaces =>
                rw [List.cons_append, List.drop_succ_cons, List.drop_zero, List.take_append,
                  List.take_of_length_le (by simp; omega), List.length_cons,
                  show spaces.length + 1 + 1 - spaces.length = 2 by omega]
                simp
          have hdrop : (spaces ++ 34 :: b :: (s ++ 0 :: behind)).drop 1
              = (spaces ++ [34, b]).drop 1 ++ s ++ 0 :: behind := by
            cases spaces <;> simp
          rw [if_pos hclosed, htake, hskipped, checkParamArray_closed hspaces hnot]
          simp only [Option.map_some, ParamValue.passed]
          rw [hdrop, stringIn_append_nul _ behind []]
        · rw [if_neg hclosed, checkParamArray_open hspaces hclosed]
          rfl
      · rw [checkParamArray_number hspaces hc hquote]
        simp only [Option.bind_some, List.head?_cons, Option.some.injEq, hquote, if_false,
          Option.map_map]
        rfl

/-! ### The texts on which the function stays inside -/

/-- A text without a quote is a number. -/
lemma paramInside_of_no_quote (hlen : text.length < 256)
    (hquote : (text.dropWhile (· = 32)).head? ≠ some 34) : ParamInside text := by
  obtain ⟨spaces, htext, hspaces⟩ := exists_spaces text
  obtain ⟨zeros, hbuffer⟩ := buffer_eq text hlen
  obtain ⟨k, hk⟩ := skipAtoi_settled text 0
  obtain ⟨c, rest, hc, hc', hcons⟩ : ∃ c rest, c ≠ 32 ∧ c ≠ 34 ∧
      text.dropWhile (· = 32) ++ 0 :: zeros = c :: rest := by
    cases hrest : text.dropWhile (· = 32) with
    | nil => exact ⟨0, zeros, by decide, by decide, rfl⟩
    | cons c rest =>
        rw [hrest] at hquote
        exact ⟨c, rest ++ 0 :: zeros, head_dropWhile_spaces hrest, by simpa using hquote, rfl⟩
  have hsplit : buffer text = spaces ++ c :: rest := by
    rw [hbuffer, ← hcons, ← List.append_assoc, ← htext]
  refine ⟨.number k, buffer text, ?_, fun s rest' hstart _ => ?_⟩
  · rw [hsplit, checkParamArray_number hspaces hc hc', ← hsplit, hbuffer, hk]
    rfl
  · rw [hstart] at hquote
    exact absurd rfl hquote

/-- No string is found without another quote behind the byte after the first. -/
lemma not_paramInside_of_open {spaces : List UInt8} (hspaces : ∀ b ∈ spaces, b = 32)
    (hrest : 34 ∉ rest.drop 1) : ¬ ParamInside (spaces ++ 34 :: rest) := by
  rintro ⟨v, param, hcheck, -⟩
  rw [buffer, List.append_assoc, List.cons_append, checkParamArray_open hspaces] at hcheck
  · cases hcheck
  · rw [List.drop_append, List.mem_append]
    rintro (h | h)
    · exact hrest h
    · exact absurd (List.eq_of_mem_replicate (List.mem_of_mem_drop h)) (by decide)

/-- With it the string is the one between the quotes, unless it is empty. -/
lemma paramInside_closed_iff {spaces s : List UInt8} {b : UInt8} (hspaces : ∀ b ∈ spaces, b = 32)
    (hs : 34 ∉ s) :
    ParamInside (spaces ++ 34 :: b :: (s ++ 34 :: rest)) ↔ (spaces = [] → b ≠ 34) := by
  obtain ⟨zeros, hzeros⟩ : ∃ zeros, buffer (spaces ++ 34 :: b :: (s ++ 34 :: rest))
      = spaces ++ 34 :: b :: (s ++ 34 :: (rest ++ zeros)) := ⟨_, by simp [buffer]; rfl⟩
  have hcheck : checkParamArray (spaces ++ 34 :: b :: (s ++ 34 :: (rest ++ zeros)))
      = some (.pointer 1, spaces ++ 34 :: b :: (s ++ 0 :: (rest ++ zeros))) :=
    checkParamArray_closed hspaces hs
  rw [← hzeros] at hcheck
  constructor
  · rintro ⟨v, param, hcheck', hstring⟩ rfl rfl
    obtain ⟨rfl, rfl⟩ := Prod.mk.inj (Option.some.inj (hcheck.symm.trans hcheck'))
    obtain ⟨p, behind, hp, hdrop⟩ := hstring [] (s ++ 34 :: rest) rfl List.not_mem_nil
    obtain rfl := ParamValue.pointer.inj hp
    simp at hdrop
  · intro hb
    refine ⟨_, _, hcheck, fun s' rest' hstart hs' => ⟨1, rest ++ zeros, rfl, ?_⟩⟩
    cases spaces with
    | nil =>
        have hb' : 34 ∉ b :: s := by simp [hs, Ne.symm (hb rfl)]
        have heq : b :: s ++ 34 :: rest = s' ++ 34 :: rest' := (List.cons.inj hstart).2
        have hsame : b :: s = s' := by
          calc b :: s = (b :: s ++ 34 :: rest).takeWhile (· ≠ 34) := (takeWhile_ne_quote hb').symm
            _ = (s' ++ 34 :: rest').takeWhile (· ≠ 34) := by rw [heq]
            _ = s' := takeWhile_ne_quote hs'
        rw [← hsame]
        rfl
    | cons d spaces =>
        have hd : d = 34 := (List.cons.inj hstart).1
        rw [hspaces d List.mem_cons_self] at hd
        exact absurd hd (by decide)

/-- **`check_param` stays inside the array** and finds the string between the quotes, if and only if the
quotes are where it looks for them. -/
theorem check_param_inside_iff (text : CString) (hlen : text.bytes.length < 256) :
    ParamInside text.bytes ↔ QuoteBehind text.bytes := by
  obtain ⟨spaces, htext, hspaces⟩ := exists_spaces text.bytes
  by_cases hquote : (text.bytes.dropWhile (· = 32)).head? = some 34
  · obtain ⟨rest, hrest⟩ : ∃ rest, text.bytes.dropWhile (· = 32) = 34 :: rest :=
      ⟨_, List.eq_cons_of_mem_head? hquote⟩
    have hself : text.bytes.dropWhile (· = 32) = text.bytes ↔ spaces = [] := by
      constructor
      · intro h
        rw [h] at htext
        simpa using htext
      · rintro rfl
        exact htext.symm
    simp only [QuoteBehind, hquote, forall_const, hself]
    rw [hrest] at htext ⊢
    rw [htext]
    by_cases hclosed : 34 ∈ rest.drop 1
    · obtain ⟨s, behind, hs, hnot⟩ := List.eq_append_cons_of_mem hclosed
      obtain ⟨b, rest, rfl⟩ : ∃ b rest', rest = b :: rest' :=
        List.exists_cons_of_ne_nil (by rintro rfl; simp at hclosed)
      simp only [List.drop_succ_cons, List.drop_zero] at hs hclosed ⊢
      subst hs
      rw [paramInside_closed_iff hspaces hnot]
      simp
    · have hnot : ¬ ParamInside (spaces ++ 34 :: rest) := not_paramInside_of_open hspaces hclosed
      simp only [hnot, List.drop_succ_cons, hclosed, false_and]
  · have hinside := paramInside_of_no_quote hlen hquote
    simp [hinside, QuoteBehind, hquote]

/-- A string of two characters. -/
theorem check_param_inside_string :
    ParamInside [34, 97, 98, 34] ↔ QuoteBehind [34, 97, 98, 34] :=
  check_param_inside_iff ⟨[34, 97, 98, 34], by simp⟩ (by decide)

/-- On the empty string the search starts behind the closing quote. -/
theorem check_param_misses_empty_string : ¬ ParamInside [34, 34] := by
  have hopen : ¬ ParamInside ([] ++ 34 :: [34]) := not_paramInside_of_open (by simp) (by simp)
  exact hopen

end Matanos
