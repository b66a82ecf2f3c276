import Matanos.Shell.Dispatch

/-!
Which lines the shell reads to their end and no further.

Only the outer loop of `parse_command_and_run` tests for the NUL, and the scans of the stages do
not: a stage whose delimiter is missing goes on behind the line, into what is left in the key buffer
of earlier lines.

* `Delimited`: the delimiters that the stages look for are in the line;
* `scanStage_behind`, `scanStage_over`: a scan that ends in the line and one that does not;
* `parseCommand_settled`: the effect of a delimited line does not depend on what is behind it;
* `parseCommand_unsettled`: the effect of any other line does;
* `typed_line_only_iff`: the lines on which `user_input` acts on what was typed only.
-/

namespace Matanos

/-! ### Lines with all their delimiters -/

/-- What is behind the first delimiter. -/
def behind (stop : UInt8 → Bool) : List UInt8 → Option (List UInt8)
  | [] => none
  | c :: l => if stop c then some l else behind stop l

/-- A text without its leading spaces. -/
def dropSpaces (l : List UInt8) : List UInt8 := l.dropWhile (· = 32)

/-- The third argument is closed, or it is no string, or its string is closed. -/
def Delimited3 (l : List UInt8) : Prop :=
  41 ∈ l ∨ (dropSpaces l).head? ≠ some 34 ∨ 34 ∈ (dropSpaces l).drop 2

/-- From the second argument on, the line ends or the argument is delimited, and what follows
closes the line or is delimited. -/
def Delimited2 (l : List UInt8) : Prop :=
  l = [] ∨ ∃ r ∈ behind isCommaOrClose l, r.head? = some 41 ∨ Delimited3 r

/-- The same from the first argument on. -/
def Delimited1 (l : List UInt8) : Prop :=
  l = [] ∨ ∃ r ∈ behind isCommaOrClose l, r.head? = some 41 ∨ Delimited2 r

/-- The line is empty, or has a `(` and is delimited behind it. -/
def Delimited (line : List UInt8) : Prop :=
  line = [] ∨ ∃ r ∈ behind isOpen line, Delimited1 r

lemma behind_some {stop : UInt8 → Bool} {l r : List UInt8} (h : behind stop l = some r) :
    ∃ w d, l = w ++ d :: r ∧ (∀ c ∈ w, stop c = false) ∧ stop d = true := by
  induction l with
  | nil => simp [behind] at h
  | cons c l ih =>
      rw [behind] at h
      split_ifs at h with hc
      · obtain rfl := Option.some.inj h
        exact ⟨[], c, rfl, by simp, hc⟩
      · obtain ⟨w, d, rfl, hw, hd⟩ := ih h
        exact ⟨c :: w, d, rfl, by simpa [hc] using hw, hd⟩

lemma behind_none {stop : UInt8 → Bool} {l : List UInt8} (h : behind stop l = none) :
    ∀ c ∈ l, stop c = false := by
  induction l with
  | nil => simp
  | cons c l ih =>
      rw [behind] at h
      split_ifs at h with hc
      simpa [hc] using ih h

/-! ### One scan -/

lemma dropSpaces_eq (l : List UInt8) :
    ∃ n, l = List.replicate n 32 ++ dropSpaces l ∧ (dropSpaces l).head? ≠ some 32 := by
  induction l with
  | nil => exact ⟨0, by simp [dropSpaces], by simp [dropSpaces]⟩
  | cons c l ih =>
      by_cases hc : c = 32
      · obtain ⟨n, hn, hhead⟩ := ih
        subst hc
        have hdrop : dropSpaces (32 :: l) = dropSpaces l := by simp [dropSpaces]
        rw [hdrop]
        exact ⟨n + 1, by rw [List.replicate_succ, List.cons_append, ← hn], hhead⟩
      · exact ⟨0, by simp [dropSpaces, hc], by simp [dropSpaces, hc]⟩

/-- A scan that ends in the line. -/
lemma scanStage_behind {stop : UInt8 → Bool} {l r : List UInt8} (h32 : stop 32 = false)
    (hr : behind stop l = some r) (hlen : l.length ≤ 256) :
    ∃ copy, ∀ z, scanStage stop (l ++ z) = some (copy, r ++ z) := by
  obtain ⟨w, d, rfl, hw, hd⟩ := behind_some hr
  obtain ⟨n, hn, hhead⟩ := dropSpaces_eq w
  refine ⟨dropSpaces w, fun z => ?_⟩
  have hsplit : w ++ d :: r ++ z = List.replicate n 32 ++ (dropSpaces w ++ d :: (r ++ z)) := by
    conv_lhs => rw [hn]
    simp
  have hsub : ∀ c ∈ dropSpaces w, stop c = false := by
    intro c hc
    exact hw c ((List.dropWhile_sublist _).mem hc)
  have hle : (dropSpaces w).length ≤ 256 := by
    have h := (List.dropWhile_sublist (fun c : UInt8 => decide (c = 32)) (l := w)).length_le
    simp only [List.length_append, List.length_cons] at hlen
    exact h.trans (by omega)
  have hdhead : (dropSpaces w ++ [d]).head? ≠ some 32 := by
    cases hv : dropSpaces w with
    | nil =>
        rintro ⟨⟩
        simp [h32] at hd
    | cons c v => simpa [hv] using hhead
  rw [hsplit]
  exact scanStage_word hd hsub hle hdhead n

/-- A scan that goes on behind the line, to the first delimiter there. -/
lemma scanStage_over {stop : UInt8 → Bool} {l u z : List UInt8} {d : UInt8} (h0 : stop 0 = false)
    (hl : ∀ c ∈ l, stop c = false) (hu : ∀ c ∈ u, stop c = false) (hd : stop d = true)
    (hlen : l.length + 1 + u.length ≤ 256) :
    scanStage stop (l ++ 0 :: (u ++ d :: z)) = some (dropSpaces l ++ 0 :: u, z) := by
  obtain ⟨n, hn, hhead⟩ := dropSpaces_eq l
  have hsplit : l ++ 0 :: (u ++ d :: z)
      = List.replicate n 32 ++ ((dropSpaces l ++ 0 :: u) ++ d :: z) := by
    conv_lhs => rw [hn]
    simp
  have hle := (List.dropWhile_sublist (fun c : UInt8 => decide (c = 32)) (l := l)).length_le
  rw [hsplit]
  refine scanStage_word hd ?_ ?_ ?_ n
  · intro c hc
    simp only [List.mem_append, List.mem_cons] at hc
    rcases hc with hc | rfl | hc
    · exact hl c ((List.dropWhile_sublist _).mem hc)
    · exact h0
    · exact hu c hc
  · simp only [List.length_append, List.length_cons, dropSpaces]
    omega
  · cases hv : dropSpaces l with
    | nil => simp
    | cons c v => simpa [hv] using hhead

/-- A copy of some bytes goes on with what is behind them. -/
lemma copyUntil_copied {stop : UInt8 → Bool} (l : List UInt8) : ∀ (w : List UInt8) (n : ℕ),
    (∀ c ∈ w, stop c = false) → w.length ≤ n →
      copyUntil stop n (w ++ l)
        = (copyUntil stop (n - w.length) l).map fun (copy, rest) => (w ++ copy, rest)
  | [], n, _, _ => by simp
  | c :: w, n + 1, hw, hn => by
      have hc : stop c = false := hw c (by simp)
      have hrest := copyUntil_copied l w n (fun c hc => hw c (by simp [hc])) (by simpa using hn)
      simp [copyUntil, hc, hrest, Function.comp_def]

/-- A copy ends when there is enough to read. -/
lemma copyUntil_some (stop : UInt8 → Bool) : ∀ (n : ℕ) (l : List UInt8), n < l.length →
    ∃ copy rest, copyUntil stop n l = some (copy, rest)
  | 0, c :: l, _ => ⟨[], c :: l, rfl⟩
  | n + 1, c :: l, hn => by
      by_cases hc : stop c = true
      · exact ⟨[], c :: l, by simp [copyUntil, hc]⟩
      · obtain ⟨copy, rest, h⟩ := copyUntil_some stop n l (by simpa using hn)
        exact ⟨c :: copy, rest, by simp [copyUntil, hc, h]⟩

/-- A scan that does not end in the line copies the NUL behind it. -/
lemma scanStage_open {stop : UInt8 → Bool} {l z : List UInt8} (h0 : stop 0 = false)
    (hl : ∀ c ∈ l, stop c = false) (hlen : l.length ≤ 255) (hz : 256 ≤ z.length) :
    ∃ u rest, scanStage stop (l ++ 0 :: z) = some (dropSpaces l ++ 0 :: u, rest) := by
  obtain ⟨n, hn, hhead⟩ := dropSpaces_eq l
  have hle := (List.dropWhile_sublist (fun c : UInt8 => decide (c = 32)) (l := l)).length_le
  change (dropSpaces l).length ≤ l.length at hle
  have hskip : skipSpaces (l ++ 0 :: z) = some (dropSpaces l ++ 0 :: z) := by
    conv_lhs => rw [hn, List.append_assoc]
    cases hv : dropSpaces l with
    | nil => exact skipSpaces_replicate (by decide) n z
    | cons c v => exact skipSpaces_replicate (by simpa [hv] using hhead) n _
  obtain ⟨u, rest, hcopy⟩ := copyUntil_some stop (256 - ((dropSpaces l).length + 1)) z (by omega)
  have hstop : ∀ c ∈ dropSpaces l ++ [0], stop c = false := by
    intro c hc
    rcases List.mem_append.mp hc with hc | hc
    · exact hl c ((List.dropWhile_sublist _).mem hc)
    · rw [List.mem_singleton.mp hc]
      exact h0
  have hcopied := copyUntil_copied z (dropSpaces l ++ [0]) 256 hstop
    (by simp only [List.length_append, List.length_singleton]; omega)
  rw [List.length_append, List.length_singleton, hcopy, List.append_assoc] at hcopied
  refine ⟨u, rest.tail, ?_⟩
  rw [scanStage, hskip, Option.bind_some, maxCommandSize]
  simp only [List.singleton_append] at hcopied
  rw [hcopied]
  simp

/-! ### Delimited lines -/

lemma skipAtoi_settled (v : List UInt8) (i : ℕ) : ∃ k, ∀ u, skipAtoi i (v ++ 0 :: u) = some k := by
  induction v generalizing i with
  | nil => exact ⟨i, fun u => by simp [skipAtoi, isDigit]⟩
  | cons c v ih =>
      by_cases hc : isDigit c = true
      · obtain ⟨k, hk⟩ := ih ((i * 10 + (c.toNat - 48)) % 2 ^ 32)
        exact ⟨k, fun u => by rw [List.cons_append, skipAtoi, if_pos hc, hk]⟩
      · exact ⟨i, fun u => by rw [List.cons_append, skipAtoi, if_neg hc]⟩

lemma takeWhile_quote {m z : List UInt8} (h : 34 ∈ m) :
    (m ++ z).takeWhile (· ≠ 34) = m.takeWhile (· ≠ 34) := by
  induction m with
  | nil => simp at h
  | cons c m ih =>
      by_cases hc : c = 34
      · simp [hc]
      · have hm : 34 ∈ m := by simpa [Ne.symm hc] using h
        rw [List.cons_append, List.takeWhile_cons, List.takeWhile_cons, ih hm]

/-- An argument that starts with a quote is a string if there is another quote. -/
lemma checkParam_quote (base : ℕ) (m : List UInt8) :
    checkParam base (34 :: m)
      = if 34 ∈ m.drop 1 then
          some ⟨base + 1, some (stringIn (m.take 1 ++ (m.drop 1).takeWhile (· ≠ 34) ++ [0]))⟩
        else none := by
  simp [checkParam, skipSpaces]

/-- The value of an argument does not depend on what is behind its NUL, unless it is an open
string. -/
lemma checkParam_settled (base : ℕ) (v : List UInt8) (hhead : v.head? ≠ some 32)
    (h : v.head? ≠ some 34 ∨ 34 ∈ v.drop 2) :
    ∃ a, ∀ u, checkParam base (v ++ 0 :: u) = some a := by
  cases v with
  | nil => exact ⟨⟨0, none⟩, fun u => by simp [checkParam, skipSpaces, skipAtoi, isDigit]⟩
  | cons c m =>
      have h32 : c ≠ 32 := by simpa using hhead
      by_cases h34 : c = 34
      · subst h34
        have hquote : 34 ∈ m.drop 1 := by simpa using h
        obtain ⟨b, m, rfl⟩ : ∃ b m', m = b :: m' :=
          List.exists_cons_of_ne_nil (by rintro rfl; simp at hquote)
        simp only [List.drop_succ_cons, List.drop_zero] at hquote
        refine ⟨⟨base + 1, some (stringIn (b :: m.takeWhile (· ≠ 34) ++ [0]))⟩, fun u => ?_⟩
        rw [List.cons_append, checkParam_quote, if_pos (by simp [hquote])]
        simp only [List.cons_append, List.take_succ_cons, List.take_zero, List.drop_succ_cons,
          List.drop_zero, List.nil_append, takeWhile_quote hquote]
      · obtain ⟨k, hk⟩ := skipAtoi_settled (c :: m) 0
        refine ⟨⟨k, none⟩, fun u => ?_⟩
        have hvalue := hk u
        rw [List.cons_append] at hvalue ⊢
        simp [checkParam, skipSpaces, h32, h34, hvalue]

section Settled

variable (symbols : List Symbol) (frame : ParamArrays)

/-- From some stage on, the effect of a text and a NUL does not depend on what is behind them. -/
def Settled (parse : List UInt8 → Option Parsed) (l : List UInt8) : Prop :=
  ∃ e, ∀ z, 256 ≤ z.length → (parse (l ++ 0 :: z)).map (effectOf symbols frame) = some e

/-- From some stage on, the effect depends on the byte behind the NUL. -/
def Unsettled (parse : List UInt8 → Option Parsed) (l : List UInt8) : Prop :=
  ∃ x y S, ∀ z, (parse (l ++ 0 :: x :: (S ++ 0 :: z))).map (effectOf symbols frame)
    ≠ (parse (l ++ 0 :: y :: (S ++ 0 :: z))).map (effectOf symbols frame)

variable {symbols frame}

/-- A stage that ends at a NUL, or with a result of its own, is settled. -/
lemma settled_of_eq {parse : List UInt8 → Option Parsed} {l : List UInt8} (p : Parsed)
    (h : ∀ z, parse (l ++ 0 :: z) = some p) : Settled symbols frame parse l :=
  ⟨effectOf symbols frame p, fun z _ => by rw [h, Option.map_some]⟩

lemma Settled.of_eq {parse parse' : List UInt8 → Option Parsed} {l r : List UInt8}
    (hr : Settled symbols frame parse' r) (h : ∀ z, parse (l ++ 0 :: z) = parse' (r ++ 0 :: z)) :
    Settled symbols frame parse l := by
  obtain ⟨e, he⟩ := hr
  exact ⟨e, fun z hz => by rw [h, he z hz]⟩

lemma Unsettled.of_eq {parse parse' : List UInt8 → Option Parsed} {l r : List UInt8}
    (hr : Unsettled symbols frame parse' r) (h : ∀ z, parse (l ++ 0 :: z) = parse' (r ++ 0 :: z)) :
    Unsettled symbols frame parse l := by
  obtain ⟨x, y, S, hS⟩ := hr
  exact ⟨x, y, S, fun z => by simpa only [h] using hS z⟩

end Settled

/-! ### The stages -/

lemma parseParam3_cons (p : Parsed) {l z : List UInt8} (hne : l ≠ []) (hl : ∀ c ∈ l, c ≠ 0) :
    parseParam3 p (l ++ z) = (scanStage isClose (l ++ z)).map fun (copy, _) =>
      { p with param3 := copy } := by
  obtain ⟨c, l, rfl⟩ := List.exists_cons_of_ne_nil hne
  rw [List.cons_append, parseParam3, if_neg (hl c (by simp))]

/-- The second argument with its delimiter. -/
lemma parseParam2_behind (p : Parsed) {l r : List UInt8} (hl : ∀ c ∈ l, c ≠ 0)
    (hlen : l.length ≤ 255) (hr : behind isCommaOrClose l = some r) :
    ∃ copy, ∀ z, parseParam2 p (l ++ 0 :: z)
      = if r.head? = some 41 then some { p with param2 := copy }
        else parseParam3 { p with param2 := copy } (r ++ 0 :: z) := by
  obtain ⟨copy, hscan⟩ := scanStage_behind (by decide) hr (by omega)
  refine ⟨copy, fun z => ?_⟩
  have hz := hscan (0 :: z)
  cases l with
  | nil => simp [behind] at hr
  | cons c l =>
      have hc : c ≠ 0 := hl c (by simp)
      rw [List.cons_append] at hz ⊢
      cases r with
      | nil => simp [parseParam2, hc, hz]
      | cons d r => by_cases hd : d = 41 <;> simp [parseParam2, hc, hz, hd]

/-- The second argument without its delimiter. -/
lemma parseParam2_over (p : Parsed) {l u z : List UInt8} {d e : UInt8} (hne : l ≠ [])
    (hl : ∀ c ∈ l, c ≠ 0) (hr : behind isCommaOrClose l = none)
    (hu : ∀ c ∈ u, isCommaOrClose c = false) (hd : isCommaOrClose d = true) (he : e ≠ 41)
    (hlen : l.length + 1 + u.length ≤ 256) :
    parseParam2 p (l ++ 0 :: (u ++ d :: e :: z))
      = parseParam3 { p with param2 := dropSpaces l ++ 0 :: u } (e :: z) := by
  have hscan := scanStage_over (z := e :: z) (show isCommaOrClose 0 = false by decide)
    (behind_none hr) hu hd hlen
  cases l with
  | nil => exact absurd rfl hne
  | cons c l =>
      have hc : c ≠ 0 := hl c (by simp)
      rw [List.cons_append] at hscan ⊢
      simp [parseParam2, hc, hscan, he]

/-- The first argument with its delimiter. -/
lemma parseParam1_behind (p : Parsed) {l r : List UInt8} (hl : ∀ c ∈ l, c ≠ 0)
    (hlen : l.length ≤ 255) (hr : behind isCommaOrClose l = some r) :
    ∃ copy, ∀ z, parseParam1 p (l ++ 0 :: z)
      = if r.head? = some 41 then some { p with param1 := copy }
        else parseParam2 { p with param1 := copy } (r ++ 0 :: z) := by
  obtain ⟨copy, hscan⟩ := scanStage_behind (by decide) hr (by omega)
  refine ⟨copy, fun z => ?_⟩
  have hz := hscan (0 :: z)
  cases l with
  | nil => simp [behind] at hr
  | cons c l =>
      have hc : c ≠ 0 := hl c (by simp)
      rw [List.cons_append] at hz ⊢
      cases r with
      | nil => simp [parseParam1, hc, hz]
      | cons d r => by_cases hd : d = 41 <;> simp [parseParam1, hc, hz, hd]

/-- The first argument without its delimiter. -/
lemma parseParam1_over (p : Parsed) {l u z : List UInt8} {d e : UInt8} (hne : l ≠ [])
    (hl : ∀ c ∈ l, c ≠ 0) (hr : behind isCommaOrClose l = none)
    (hu : ∀ c ∈ u, isCommaOrClose c = false) (hd : isCommaOrClose d = true) (he : e ≠ 41)
    (hlen : l.length + 1 + u.length ≤ 256) :
    parseParam1 p (l ++ 0 :: (u ++ d :: e :: z))
      = parseParam2 { p with param1 := dropSpaces l ++ 0 :: u } (e :: z) := by
  have hscan := scanStage_over (z := e :: z) (show isCommaOrClose 0 = false by decide)
    (behind_none hr) hu hd hlen
  cases l with
  | nil => exact absurd rfl hne
  | cons c l =>
      have hc : c ≠ 0 := hl c (by simp)
      rw [List.cons_append] at hscan ⊢
      simp [parseParam1, hc, hscan, he]

/-- The command with its delimiter. -/
lemma parseCommand_behind {l r : List UInt8} (hl : ∀ c ∈ l, c ≠ 0) (hlen : l.length ≤ 255)
    (hr : behind isOpen l = some r) :
    ∃ copy, ∀ z, parseCommand (l ++ 0 :: z) = parseParam1 ⟨copy, [], [], []⟩ (r ++ 0 :: z) := by
  obtain ⟨copy, hscan⟩ := scanStage_behind (by decide) hr (by omega)
  refine ⟨copy, fun z => ?_⟩
  have hz := hscan (0 :: z)
  cases l with
  | nil => simp [behind] at hr
  | cons c l =>
      have hc : c ≠ 0 := hl c (by simp)
      rw [List.cons_append] at hz ⊢
      simp [parseCommand, hc, hz]

/-- The command without its delimiter. -/
lemma parseCommand_over {l u z : List UInt8} (hne : l ≠ []) (hl : ∀ c ∈ l, c ≠ 0)
    (hr : behind isOpen l = none) (hu : ∀ c ∈ u, isOpen c = false)
    (hlen : l.length + 1 + u.length ≤ 256) :
    parseCommand (l ++ 0 :: (u ++ 40 :: z))
      = parseParam1 ⟨dropSpaces l ++ 0 :: u, [], [], []⟩ z := by
  have hscan := scanStage_over (z := z) (show isOpen 0 = false by decide) (behind_none hr) hu
    (show isOpen 40 = true by decide) hlen
  cases l with
  | nil => exact absurd rfl hne
  | cons c l =>
      have hc : c ≠ 0 := hl c (by simp)
      rw [List.cons_append] at hscan ⊢
      simp [parseCommand, hc, hscan]

/-! ### Delimited lines are settled -/

section Lines

variable {symbols : List Symbol} {frame : ParamArrays}

lemma behind_nonzero {stop : UInt8 → Bool} {l r : List UInt8} (hr : behind stop l = some r)
    (hl : ∀ c ∈ l, c ≠ 0) : (∀ c ∈ r, c ≠ 0) ∧ r.length < l.length := by
  obtain ⟨w, d, rfl, -, -⟩ := behind_some hr
  refine ⟨fun c hc => hl c (by simp [hc]), ?_⟩
  simp only [List.length_append, List.length_cons]
  omega

lemma buffer_append_nul (v u : List UInt8) : ∃ u', buffer (v ++ 0 :: u) = v ++ 0 :: u' :=
  ⟨_, by rw [buffer, List.append_assoc, List.cons_append]⟩

lemma parseParam3_settled (p : Parsed) {l : List UInt8} (hl : ∀ c ∈ l, c ≠ 0)
    (hlen : l.length ≤ 255) (h : Delimited3 l) : Settled symbols frame (parseParam3 p) l := by
  by_cases hne : l = []
  · subst hne
    exact settled_of_eq p fun z => by simp [parseParam3]
  cases hr : behind isClose l with
  | some r =>
      obtain ⟨copy, hscan⟩ := scanStage_behind (by decide) hr (by omega)
      refine settled_of_eq { p with param3 := copy } fun z => ?_
      rw [parseParam3_cons p hne hl, hscan, Option.map_some]
  | none =>
      have hclose := behind_none hr
      have hstring : (dropSpaces l).head? ≠ some 34 ∨ 34 ∈ (dropSpaces l).drop 2 := by
        refine h.resolve_left fun h41 => ?_
        simpa [isClose] using hclose 41 h41
      obtain ⟨n, -, hhead⟩ := dropSpaces_eq l
      obtain ⟨a, ha⟩ := checkParam_settled frame.param3 (dropSpaces l) hhead hstring
      refine ⟨⟨stringIn p.command, checkParam frame.param1 (buffer p.param1),
        checkParam frame.param2 (buffer p.param2), some a,
        runCommand symbols p.command (checkParam frame.param1 (buffer p.param1))
          (checkParam frame.param2 (buffer p.param2)) (some a)⟩, fun z hz => ?_⟩
      obtain ⟨u, rest, hscan⟩ := scanStage_open (by decide) hclose hlen hz
      obtain ⟨u', hu'⟩ := buffer_append_nul (dropSpaces l) u
      rw [parseParam3_cons p hne hl, hscan]
      simp only [Option.map_some, effectOf, hu', ha]

lemma parseParam2_settled (p : Parsed) {l : List UInt8} (hl : ∀ c ∈ l, c ≠ 0)
    (hlen : l.length ≤ 255) (h : Delimited2 l) : Settled symbols frame (parseParam2 p) l := by
  rcases h with rfl | ⟨r, hr, h⟩
  · exact settled_of_eq p fun z => by simp [parseParam2]
  · obtain ⟨hrl, hrlen⟩ := behind_nonzero hr hl
    obtain ⟨copy, hcopy⟩ := parseParam2_behind p hl hlen hr
    by_cases h41 : r.head? = some 41
    · exact settled_of_eq { p with param2 := copy } fun z => by rw [hcopy, if_pos h41]
    · have hrest : Settled symbols frame (parseParam3 { p with param2 := copy }) r :=
        parseParam3_settled _ hrl (by omega) (h.resolve_left h41)
      exact hrest.of_eq fun z => by rw [hcopy, if_neg h41]

lemma parseParam1_settled (p : Parsed) {l : List UInt8} (hl : ∀ c ∈ l, c ≠ 0)
    (hlen : l.length ≤ 255) (h : Delimited1 l) : Settled symbols frame (parseParam1 p) l := by
  rcases h with rfl | ⟨r, hr, h⟩
  · exact settled_of_eq p fun z => by simp [parseParam1]
  · obtain ⟨hrl, hrlen⟩ := behind_nonzero hr hl
    obtain ⟨copy, hcopy⟩ := parseParam1_behind p hl hlen hr
    by_cases h41 : r.head? = some 41
    · exact settled_of_eq { p with param1 := copy } fun z => by rw [hcopy, if_pos h41]
    · have hrest : Settled symbols frame (parseParam2 { p with param1 := copy }) r :=
        parseParam2_settled _ hrl (by omega) (h.resolve_left h41)
      exact hrest.of_eq fun z => by rw [hcopy, if_neg h41]

/-- The effect of a delimited line does not depend on what is behind it. -/
lemma parseCommand_settled {l : List UInt8} (hl : ∀ c ∈ l, c ≠ 0) (hlen : l.length ≤ 255)
    (h : Delimited l) : Settled symbols frame parseCommand l := by
  rcases h with rfl | ⟨r, hr, h⟩
  · exact settled_of_eq ⟨[], [], [], []⟩ fun z => by simp [parseCommand]
  · obtain ⟨hrl, hrlen⟩ := behind_nonzero hr hl
    obtain ⟨copy, hcopy⟩ := parseCommand_behind hl hlen hr
    have hrest : Settled symbols frame (parseParam1 ⟨copy, [], [], []⟩) r :=
      parseParam1_settled _ hrl (by omega) h
    exact hrest.of_eq hcopy

/-! ### Other lines are not -/

/-- The argument `1`. -/
def Argument.one : Argument := .numeral [49] (by simp) (by simp [isDigit]) (by decide)

lemma checkParam_one (base : ℕ) : checkParam base (buffer [49]) = some ⟨1, none⟩ :=
  checkParam_argument base .one (by decide)

/-- The byte behind the NUL decides whether an open string is closed in its array. -/
lemma checkParam_open (base : ℕ) {m : List UInt8} (x : UInt8) (hm : 34 ∉ m.drop 1) :
    (checkParam base (buffer (34 :: m ++ 0 :: [x]))).isSome = decide (x = 34) := by
  obtain ⟨u, hu⟩ : ∃ n, buffer (34 :: m ++ 0 :: [x])
      = 34 :: (m ++ 0 :: x :: List.replicate n 0) := ⟨_, by simp [buffer]; rfl⟩
  rw [hu, checkParam_quote]
  by_cases hx : x = 34
  · subst hx
    cases m <;> simp
  have hx' : 34 ≠ x := Ne.symm hx
  cases m with
  | nil => simp [hx, hx']
  | cons b m =>
      have hbm : 34 ∉ m := by simpa using hm
      simp [hbm, hx, hx']

/-- A quote behind the line closes the string of its third argument. -/
lemma parseParam3_unsettled (p : Parsed) {l : List UInt8} (hl : ∀ c ∈ l, c ≠ 0)
    (hlen : l.length ≤ 254) (h : ¬ Delimited3 l) :
    Unsettled symbols frame (parseParam3 p) l := by
  obtain ⟨h41, hquote, h34⟩ : 41 ∉ l ∧ (dropSpaces l).head? = some 34 ∧
      34 ∉ (dropSpaces l).drop 2 := by
    simpa only [Delimited3, not_or, not_not, ne_eq] using h
  obtain ⟨m, hm⟩ : ∃ m, dropSpaces l = 34 :: m := by
    cases hv : dropSpaces l with
    | nil => simp [hv] at hquote
    | cons c m => exact ⟨m, by simpa [hv] using hquote⟩
  have hne : l ≠ [] := by
    rintro rfl
    simp [dropSpaces] at hm
  have hclose : ∀ c ∈ l, isClose c = false := by
    intro c hc
    simpa [isClose] using ne_of_mem_of_not_mem hc h41
  have hparse : ∀ x z, isClose x = false → parseParam3 p (l ++ 0 :: x :: ([41] ++ 0 :: z))
      = some { p with param3 := 34 :: m ++ 0 :: [x] } := by
    intro x z hx
    have hscan := scanStage_over (u := [x]) (z := 0 :: z) (show isClose 0 = false by decide)
      hclose (by simpa using hx) (show isClose 41 = true by decide)
      (by simp only [List.length_singleton]; omega)
    simp only [List.singleton_append] at hscan ⊢
    rw [parseParam3_cons p hne hl, hscan, Option.map_some, hm]
  refine ⟨34, 65, [41], fun z heq => ?_⟩
  rw [hparse 34 z (by decide), hparse 65 z (by decide), Option.map_some, Option.map_some] at heq
  have harg := congrArg (fun e => e.arg3.isSome) (Option.some.inj heq)
  simp only [effectOf, checkParam_open frame.param3 _ (m := m) (by simpa [hm] using h34)] at harg
  exact absurd harg (by decide)

lemma parseParam3_one (p : Parsed) (z : List UInt8) :
    parseParam3 p (49 :: 41 :: z) = some { p with param3 := [49] } :=
  parseParam3_close p ⟨0, .one⟩ (by decide) z

lemma parseParam2_one (p : Parsed) (z : List UInt8) :
    parseParam2 p (49 :: 41 :: 0 :: z) = some { p with param2 := [49] } :=
  parseParam2_close p ⟨0, .one⟩ (by decide) z

lemma parseParam1_one (p : Parsed) (z : List UInt8) :
    parseParam1 p (49 :: 41 :: 0 :: z) = some { p with param1 := [49] } :=
  parseParam1_close p ⟨0, .one⟩ (by decide) z

lemma parseParam3_nul (p : Parsed) (z : List UInt8) : parseParam3 p (0 :: z) = some p := by
  simp [parseParam3]

lemma parseParam2_nul (p : Parsed) (z : List UInt8) : parseParam2 p (0 :: z) = some p := by
  simp [parseParam2]

/-- A comma behind the line starts the third argument. -/
lemma parseParam2_unsettled (p : Parsed) (hp : p.param3 = []) {l : List UInt8}
    (hl : ∀ c ∈ l, c ≠ 0) (hlen : l.length ≤ 253) (h : ¬ Delimited2 l) :
    Unsettled symbols frame (parseParam2 p) l := by
  simp only [Delimited2, not_or, not_exists, not_and, Option.mem_def] at h
  obtain ⟨hne, h⟩ := h
  cases hr : behind isCommaOrClose l with
  | some r =>
      obtain ⟨hrl, hrlen⟩ := behind_nonzero hr hl
      obtain ⟨h41, hrest⟩ := h r hr
      obtain ⟨copy, hcopy⟩ := parseParam2_behind p hl (by omega) hr
      have hunsettled : Unsettled symbols frame (parseParam3 { p with param2 := copy }) r :=
        parseParam3_unsettled _ hrl (by omega) hrest
      exact hunsettled.of_eq fun z => by rw [hcopy, if_neg h41]
  | none =>
      refine ⟨44, 65, [49, 41], fun z heq => ?_⟩
      have hcomma := parseParam2_over (u := []) (d := 44) (e := 49) (z := 41 :: 0 :: z) p hne hl hr
        (by simp) (by decide) (by decide) (by simp only [List.length_nil]; omega)
      have hletter := parseParam2_over (u := [65, 49]) (d := 41) (e := 0) (z := z) p hne hl hr
        (by simp [isCommaOrClose]) (by decide) (by decide) (by simp only [List.length_cons, List.length_nil]; omega)
      simp only [List.cons_append, List.nil_append] at hcomma hletter heq
      rw [hcomma, hletter, parseParam3_one, parseParam3_nul, Option.map_some, Option.map_some] at heq
      have harg := congrArg Effect.arg3 (Option.some.inj heq)
      simp only [effectOf, hp, checkParam_one, checkParam_empty] at harg
      exact absurd harg (by simp)

/-- A comma behind the line starts the second argument. -/
lemma parseParam1_unsettled (p : Parsed) (hp2 : p.param2 = []) (hp3 : p.param3 = []) {l : List UInt8}
    (hl : ∀ c ∈ l, c ≠ 0) (hlen : l.length ≤ 253) (h : ¬ Delimited1 l) :
    Unsettled symbols frame (parseParam1 p) l := by
  simp only [Delimited1, not_or, not_exists, not_and, Option.mem_def] at h
  obtain ⟨hne, h⟩ := h
  cases hr : behind isCommaOrClose l with
  | some r =>
      obtain ⟨hrl, hrlen⟩ := behind_nonzero hr hl
      obtain ⟨h41, hrest⟩ := h r hr
      obtain ⟨copy, hcopy⟩ := parseParam1_behind p hl (by omega) hr
      have hunsettled : Unsettled symbols frame (parseParam2 { p with param1 := copy }) r :=
        parseParam2_unsettled { p with param1 := copy } hp3 hrl (by omega) hrest
      exact hunsettled.of_eq fun z => by rw [hcopy, if_neg h41]
  | none =>
      refine ⟨44, 65, [49, 41], fun z heq => ?_⟩
      have hcomma := parseParam1_over (u := []) (d := 44) (e := 49) (z := 41 :: 0 :: z) p hne hl hr
        (by simp) (by decide) (by decide) (by simp only [List.length_nil]; omega)
      have hletter := parseParam1_over (u := [65, 49]) (d := 41) (e := 0) (z := z) p hne hl hr
        (by simp [isCommaOrClose]) (by decide) (by decide) (by simp only [List.length_cons, List.length_nil]; omega)
      simp only [List.cons_append, List.nil_append] at hcomma hletter heq
      rw [hcomma, hletter, parseParam2_one, parseParam2_nul, Option.map_some, Option.map_some] at heq
      have harg := congrArg Effect.arg2 (Option.some.inj heq)
      simp only [effectOf, hp2, checkParam_one, checkParam_empty] at harg
      exact absurd harg (by simp)

/-- The lines without a `(`: where the first `(` behind the line is decides what the first argument
is. -/
lemma parseCommand_over_arg {l z : List UInt8} (hne : l ≠ []) (hl : ∀ c ∈ l, c ≠ 0)
    (hlen : l.length ≤ 254) (hr : behind isOpen l = none) :
    (parseCommand (l ++ 0 :: 40 :: ([40, 49, 41] ++ 0 :: z))).map (effectOf symbols frame)
      ≠ (parseCommand (l ++ 0 :: 111 :: ([40, 49, 41] ++ 0 :: z))).map (effectOf symbols frame) := by
  intro heq
  have hopen := parseCommand_over (u := []) (z := [40, 49, 41] ++ 0 :: z) hne hl hr (by simp)
    (by simp only [List.length_nil]; omega)
  have hletter := parseCommand_over (u := [111]) (z := [49, 41] ++ 0 :: z) hne hl hr
    (by simp [isOpen]) (by simp only [List.length_singleton]; omega)
  have hparam : ∀ p, parseParam1 p (40 :: 49 :: 41 :: 0 :: z) = some { p with param1 := [40, 49] } := by
    intro p
    simp [parseParam1, scanStage, skipSpaces, copyUntil, maxCommandSize, isCommaOrClose, parseParam2]
  simp only [List.cons_append, List.nil_append] at hopen hletter heq
  rw [hopen, hletter, hparam, parseParam1_one, Option.map_some, Option.map_some] at heq
  have harg := congrArg Effect.arg1 (Option.some.inj heq)
  have hzero : checkParam frame.param1 (buffer [40, 49]) = some ⟨0, none⟩ := by
    obtain ⟨u, hu⟩ := buffer_eq [40, 49] (by decide)
    simp [hu, checkParam, skipSpaces, skipAtoi, isDigit]
  simp only [effectOf, checkParam_one, hzero] at harg
  exact absurd harg (by simp)

/-- The effect of a line that is not delimited depends on what is behind it. -/
lemma parseCommand_unsettled {l : List UInt8} (hl : ∀ c ∈ l, c ≠ 0) (hlen : l.length ≤ 254)
    (h : ¬ Delimited l) : Unsettled symbols frame parseCommand l := by
  simp only [Delimited, not_or, not_exists, not_and, Option.mem_def] at h
  obtain ⟨hne, h⟩ := h
  cases hr : behind isOpen l with
  | some r =>
      obtain ⟨hrl, hrlen⟩ := behind_nonzero hr hl
      obtain ⟨copy, hcopy⟩ := parseCommand_behind hl (by omega) hr
      have hunsettled : Unsettled symbols frame (parseParam1 ⟨copy, [], [], []⟩) r :=
        parseParam1_unsettled ⟨copy, [], [], []⟩ rfl rfl hrl (by omega) (h r hr)
      exact hunsettled.of_eq hcopy
  | none => exact ⟨40, 111, [40, 49, 41], fun z => parseCommand_over_arg hne hl hlen hr⟩

end Lines

/-! ### The whole line -/

/-- A line in the key buffer. -/
structure KeyLine extends CString where
  short : bytes.length ≤ 255

/-- `user_input` runs a command of its own exactly on its name. -/
lemma selectBuiltin_eq (line : CString) (z : List UInt8) (bs : List Builtin) :
    selectBuiltin (line.bytes ++ 0 :: z) bs = some (bs.find? fun b => b.name = line.bytes) := by
  induction bs with
  | nil => rfl
  | cons b bs ih =>
      have hb : ∀ c ∈ b.name, c ≠ 0 := by cases b <;> simp [Builtin.name]
      obtain ⟨d, hd, hiff⟩ := strcmp_string z [] line.bytes b.name line.nonzero hb
      by_cases h : b.name = line.bytes
      · rw [List.find?_cons_of_pos (by simpa using h)]
        simp [selectBuiltin, hd, hiff.mpr h.symm]
      · have hne : d ≠ 0 := fun h0 => h (hiff.mp h0).symm
        rw [List.find?_cons_of_neg (by simpa using h)]
        simp [selectBuiltin, hd, hne, ih]

/-- The string in front of a NUL. -/
lemma stringIn_line (line : CString) (z : List UInt8) :
    stringIn (line.bytes ++ 0 :: z) = line.bytes := by
  have hall : ∀ c ∈ line.bytes, decide (c ≠ 0) = true := fun c hc => by simpa using line.nonzero c hc
  rw [stringIn, List.takeWhile_append_of_pos hall]
  simp

section UserInput

variable (symbols : List Symbol) (frame : ParamArrays) (line : KeyLine)

/-- `user_input` acts on the line only: on two key buffers that hold it, the bytes behind its NUL do
not matter. There are at least 256 bytes of memory behind the buffer. -/
def ActsOnLine : Prop :=
  ∀ t₁ t₂ env : List UInt8, t₁.length = 255 - line.bytes.length →
    t₂.length = 255 - line.bytes.length → 256 ≤ env.length →
    userInput symbols frame (line.bytes ++ 0 :: (t₁ ++ env))
      = userInput symbols frame (line.bytes ++ 0 :: (t₂ ++ env))

variable {symbols frame line}

/-- `user_input` on the name of a command of its own. -/
lemma userInput_builtin {b : Builtin} (hb : b.name = line.bytes) (z : List UInt8) :
    userInput symbols frame (line.bytes ++ 0 :: z) = some (.builtin b) := by
  rw [userInput, selectBuiltin_eq, ← hb]
  cases b <;> rfl

/-- `user_input` on any other line. -/
lemma userInput_run (h : ¬ ∃ b : Builtin, b.name = line.bytes) (z : List UInt8) :
    userInput symbols frame (line.bytes ++ 0 :: z)
      = some (.run line.bytes (parseCommandAndRun symbols frame (line.bytes ++ 0 :: z))) := by
  have hnone : [Builtin.halt, .shutdown, .reboot, .cpuinfo].find? (fun b => b.name = line.bytes)
      = none := by
    rw [List.find?_eq_none]
    intro b _
    simpa using fun hb => h ⟨b, hb⟩
  rw [userInput, selectBuiltin_eq, hnone, stringIn_line]
  rfl

/-- A line that is not delimited, with room behind its NUL, is not acted on alone. -/
lemma not_actsOnLine (hlen : line.bytes.length ≤ 254)
    (hbuiltin : ¬ ∃ b : Builtin, b.name = line.bytes)
    (hunsettled : Unsettled symbols frame parseCommand line.bytes) :
    ¬ ActsOnLine symbols frame line := by
  intro hacts
  obtain ⟨x, y, S, hS⟩ := hunsettled
  obtain ⟨R, hR⟩ : ∃ R, R = S ++ 0 :: List.replicate 1000 0 := ⟨_, rfl⟩
  have hRlen : 1000 ≤ R.length := by
    rw [hR, List.length_append, List.length_cons, List.length_replicate]
    omega
  have hmem : ∀ c, (c :: R.take (254 - line.bytes.length)) ++ R.drop (254 - line.bytes.length)
      = c :: R := by
    intro c
    rw [List.cons_append, List.take_append_drop]
  have hlength : ∀ c : UInt8, (c :: R.take (254 - line.bytes.length)).length
      = 255 - line.bytes.length := by
    intro c
    rw [List.length_cons, List.length_take]
    omega
  have heq := hacts _ _ (R.drop (254 - line.bytes.length)) (hlength x) (hlength y)
    (by rw [List.length_drop]; omega)
  rw [hmem, hmem, userInput_run hbuiltin, userInput_run hbuiltin] at heq
  have hrun := (Response.run.inj (Option.some.inj heq)).2
  rw [hR] at hrun
  exact hS _ hrun

/-- The lines on which the shell acts on what was typed only: those that fill the key buffer, the
names of its own commands, and the delimited ones. -/
theorem typed_line_only_iff (symbols : List Symbol) (frame : ParamArrays) (line : KeyLine) :
    ActsOnLine symbols frame line ↔
      line.bytes.length = 255 ∨ (∃ b : Builtin, b.name = line.bytes) ∨ Delimited line.bytes := by
  have hshort := line.short
  constructor
  · intro hacts
    by_contra h
    simp only [not_or] at h
    obtain ⟨hlen, hbuiltin, hdelimited⟩ := h
    have hunsettled : Unsettled symbols frame parseCommand line.bytes :=
      parseCommand_unsettled line.nonzero (by omega) hdelimited
    exact not_actsOnLine (by omega) hbuiltin hunsettled hacts
  · intro h t₁ t₂ env h₁ h₂ henv
    by_cases hbuiltin : ∃ b : Builtin, b.name = line.bytes
    · obtain ⟨b, hb⟩ := hbuiltin
      rw [userInput_builtin hb, userInput_builtin hb]
    rcases h with hfull | hb | hdelimited
    · obtain rfl : t₁ = [] := List.eq_nil_of_length_eq_zero (by omega)
      obtain rfl : t₂ = [] := List.eq_nil_of_length_eq_zero (by omega)
      rfl
    · exact absurd hb hbuiltin
    · have hsettled : Settled symbols frame parseCommand line.bytes :=
        parseCommand_settled line.nonzero line.short hdelimited
      obtain ⟨e, he⟩ := hsettled
      have hrun : ∀ t : List UInt8, parseCommandAndRun symbols frame (line.bytes ++ 0 :: (t ++ env))
          = some e := by
        intro t
        exact he (t ++ env) (by rw [List.length_append]; omega)
      rw [userInput_run hbuiltin, userInput_run hbuiltin, hrun, hrun]

/-- After `f`, the shell goes on with what is left behind the NUL: there is an argument `1` if an
earlier line left `o(1)` there. -/
theorem typed_line_reads_on :
    userInput [] ⟨0, 0, 0⟩
        ([102] ++ 0 :: (40 :: ([40, 49, 41] ++ List.replicate 250 0) ++ List.replicate 256 0))
      ≠ userInput [] ⟨0, 0, 0⟩
        ([102] ++ 0 :: (111 :: ([40, 49, 41] ++ List.replicate 250 0) ++ List.replicate 256 0)) := by
  have hbuiltin : ¬ ∃ b : Builtin, b.name = [102] := by
    rintro ⟨b, hb⟩
    cases b <;> exact absurd hb (by decide)
  have hrun : ∀ z, userInput [] ⟨0, 0, 0⟩ ([102] ++ 0 :: z)
      = some (.run [102] (parseCommandAndRun [] ⟨0, 0, 0⟩ ([102] ++ 0 :: z))) :=
    @userInput_run [] ⟨0, 0, 0⟩ ⟨⟨[102], by simp⟩, by decide⟩ hbuiltin
  intro heq
  rw [hrun, hrun] at heq
  have heffect := (Response.run.inj (Option.some.inj heq)).2
  have hmem : ∀ c : UInt8, c :: ([40, 49, 41] ++ List.replicate 250 0) ++ List.replicate 256 0
      = c :: ([40, 49, 41] ++ 0 :: (List.replicate 249 0 ++ List.replicate 256 0)) := by
    intro c
    rw [List.replicate_succ]
    simp only [List.cons_append, List.nil_append]
  rw [hmem, hmem] at heffect
  exact parseCommand_over_arg (by simp) (by simp) (by decide) (by decide) heffect

end UserInput

end Matanos
