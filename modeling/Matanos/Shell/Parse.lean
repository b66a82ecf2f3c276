import Matanos.Drivers.Screen

/-!
The shell of `kernel/shell.c` and `kernel/symbols.c`: from the line to the call of a function.

Text is a list of bytes, from where a pointer points to the end of memory; a loop that reads
behind it has no result. The four local arrays of `parse_command_and_run` have 256 bytes and are
zero at the start, and a loop that leaves one of them has no result either.

* `skipSpaces`, `copyUntil`: the two loops that every stage of the parser has;
* `parseCommand`, `parseParam1`, `parseParam2`, `parseParam3`: the outer loop at each stage, with
  the bytes copied to the arrays so far;
* `skipAtoi`, `checkParam`: the value of an argument, and the string it points to;
* `strcmp`, `findSymbol`, `parseCommandAndRun`, `userInput`: the call that is made.
-/

namespace Matanos

/-- `MAX_COMMAND_SIZE`. -/
def maxCommandSize : ℕ := 256

/-- The loop `while (input[i] == ' ')`. -/
def skipSpaces : List UInt8 → Option (List UInt8)
  | [] => none
  | c :: l => if c = 32 then skipSpaces l else some (c :: l)

/-- The loop that copies bytes up to a delimiter, for at most `n` more: the copy, and the input
that is left. -/
def copyUntil (stop : UInt8 → Bool) : ℕ → List UInt8 → Option (List UInt8 × List UInt8)
  | _, [] => none
  | 0, c :: l => some ([], c :: l)
  | n + 1, c :: l =>
      if stop c then some ([], c :: l)
      else (copyUntil stop n l).map fun (copy, rest) => (c :: copy, rest)

/-- The delimiters of `COMMAND`, of `PARAM1` and `PARAM2`, and of `PARAM3`. -/
def isOpen (c : UInt8) : Bool := c = 40

@[inherit_doc isOpen]
def isCommaOrClose (c : UInt8) : Bool := c = 44 || c = 41

@[inherit_doc isOpen]
def isClose (c : UInt8) : Bool := c = 41

/-- The bytes copied to `command`, `param1`, `param2` and `param3`. -/
structure Parsed where
  command : List UInt8
  param1 : List UInt8
  param2 : List UInt8
  param3 : List UInt8
deriving DecidableEq

/-- The body of a stage: the copy, and the input behind the delimiter. -/
def scanStage (stop : UInt8 → Bool) (input : List UInt8) : Option (List UInt8 × List UInt8) :=
  (skipSpaces input).bind fun input =>
    (copyUntil stop maxCommandSize input).map fun (copy, rest) => (copy, rest.tail)

/-- The outer loop at the stage `PARAM3`. -/
def parseParam3 (p : Parsed) : List UInt8 → Option Parsed
  | [] => none
  | c :: l =>
      if c = 0 then some p
      else (scanStage isClose (c :: l)).map fun (copy, _) => { p with param3 := copy }

/-- The outer loop at the stage `PARAM2`. -/
def parseParam2 (p : Parsed) : List UInt8 → Option Parsed
  | [] => none
  | c :: l =>
      if c = 0 then some p
      else
        (scanStage isCommaOrClose (c :: l)).bind fun (copy, rest) =>
          let p := { p with param2 := copy }
          rest.head?.bind fun next => if next ≠ 41 then parseParam3 p rest else some p

/-- The outer loop at the stage `PARAM1`. -/
def parseParam1 (p : Parsed) : List UInt8 → Option Parsed
  | [] => none
  | c :: l =>
      if c = 0 then some p
      else
        (scanStage isCommaOrClose (c :: l)).bind fun (copy, rest) =>
          let p := { p with param1 := copy }
          rest.head?.bind fun next => if next ≠ 41 then parseParam2 p rest else some p

/-- The outer loop of `parse_command_and_run`. -/
def parseCommand : List UInt8 → Option Parsed
  | [] => none
  | c :: l =>
      if c = 0 then some ⟨[], [], [], []⟩
      else
        (scanStage isOpen (c :: l)).bind fun (copy, rest) =>
          parseParam1 ⟨copy, [], [], []⟩ rest

/-- A local array, with zeros behind what was copied to it. -/
def buffer (copy : List UInt8) : List UInt8 :=
  copy ++ List.replicate (maxCommandSize - copy.length) 0

/-- The string in front of the first NUL. -/
def stringIn (l : List UInt8) : List UInt8 := l.takeWhile (· ≠ 0)

/-- `isdigit`. -/
def isDigit (c : UInt8) : Bool := 48 ≤ c && c ≤ 57

/-- The loop of `skip_atoi`. -/
def skipAtoi : ℕ → List UInt8 → Option ℕ
  | _, [] => none
  | i, c :: l => if isDigit c then skipAtoi ((i * 10 + (c.toNat - 48)) % 2 ^ 32) l else some i

/-- An argument: its value, and the string it points to if it is a pointer. -/
structure Arg where
  value : ℕ
  text : Option (List UInt8)
deriving DecidableEq

/-- `check_param` on an array at the address `base`. The string starts at `param + 1`, and the
search for its end one byte behind that. -/
def checkParam (base : ℕ) (param : List UInt8) : Option Arg :=
  (skipSpaces param).bind fun rest =>
    let i := param.length - rest.length
    if rest.head? = some 34 then
      let newParam := param.drop 1
      let skipped := newParam.take (i + 1)
      let searched := newParam.drop (i + 1)
      if 34 ∈ searched then
        let contents := skipped ++ searched.takeWhile (· ≠ 34) ++ [0]
        some ⟨base + 1, some (stringIn contents)⟩
      else none
    else (skipAtoi 0 param).map fun value => ⟨value, none⟩

/-- A byte as `char`. -/
def charOf (c : UInt8) : ℤ := if c < 128 then c.toNat else (c.toNat : ℤ) - 256

/-- `strcmp`. -/
def strcmp : List UInt8 → List UInt8 → Option ℤ
  | a :: s, b :: t =>
      if a = b then if a = 0 then some 0 else strcmp s t else some (charOf a - charOf b)
  | _, _ => none

/-- An entry of the symbol table, with its name in the string table. -/
structure Symbol where
  name : CString
  stValue : ℕ

/-- The call of a function. -/
structure Call where
  func : ℕ
  arg1 : Arg
  arg2 : Arg
  arg3 : Arg
deriving DecidableEq

/-- The loop of `find_symbol_and_run`: the function it calls, if any. -/
def findSymbol (symname : List UInt8) : List Symbol → Option (Option ℕ)
  | [] => some none
  | symbol :: symbols =>
      (strcmp (symbol.name.bytes ++ [0]) symname).bind fun d =>
        if d = 0 then some (if symbol.stValue ≠ 0 then some symbol.stValue else none)
        else findSymbol symname symbols

/-- The addresses of the arrays `param1`, `param2` and `param3`. -/
structure ParamArrays where
  param1 : ℕ
  param2 : ℕ
  param3 : ℕ

/-- What `parse_command_and_run` does with a line: the command, the three arguments, and the
call. -/
structure Effect where
  command : List UInt8
  arg1 : Option Arg
  arg2 : Option Arg
  arg3 : Option Arg
  call : Option (Option Call)
deriving DecidableEq

/-- `find_symbol_and_run` with the arguments of `check_param`. -/
def runCommand (symbols : List Symbol) (command : List UInt8) (arg1 arg2 arg3 : Option Arg) :
    Option (Option Call) :=
  arg1.bind fun arg1 => arg2.bind fun arg2 => arg3.bind fun arg3 =>
    (findSymbol (buffer command) symbols).map fun func =>
      func.map fun func => ⟨func, arg1, arg2, arg3⟩

/-- What is done with the parsed line. -/
def effectOf (symbols : List Symbol) (frame : ParamArrays) (p : Parsed) : Effect :=
  let arg1 := checkParam frame.param1 (buffer p.param1)
  let arg2 := checkParam frame.param2 (buffer p.param2)
  let arg3 := checkParam frame.param3 (buffer p.param3)
  ⟨stringIn p.command, arg1, arg2, arg3, runCommand symbols p.command arg1 arg2 arg3⟩

/-- `parse_command_and_run`. -/
def parseCommandAndRun (symbols : List Symbol) (frame : ParamArrays) (input : List UInt8) :
    Option Effect :=
  (parseCommand input).map (effectOf symbols frame)

/-- The commands that `user_input` runs itself. -/
inductive Builtin where
  | halt
  | shutdown
  | reboot
  | cpuinfo
deriving DecidableEq

/-- The name of such a command. -/
def Builtin.name : Builtin → List UInt8
  | .halt => [104, 97, 108, 116]
  | .shutdown => [115, 104, 117, 116, 100, 111, 119, 110]
  | .reboot => [114, 101, 98, 111, 111, 116]
  | .cpuinfo => [99, 112, 117, 105, 110, 102, 111]

/-- What `user_input` does: a command of its own, or it says the line and runs it. -/
inductive Response where
  | builtin (b : Builtin)
  | run (said : List UInt8) (effect : Option Effect)
deriving DecidableEq

/-- The tests of `user_input` in their order. -/
def selectBuiltin (input : List UInt8) : List Builtin → Option (Option Builtin)
  | [] => some none
  | b :: bs =>
      (strcmp input (b.name ++ [0])).bind fun d =>
        if d = 0 then some (some b) else selectBuiltin input bs

/-- `user_input`. -/
def userInput (symbols : List Symbol) (frame : ParamArrays) (input : List UInt8) : Option Response :=
  (selectBuiltin input [.halt, .shutdown, .reboot, .cpuinfo]).map fun
    | some b => .builtin b
    | none => .run (stringIn input) (parseCommandAndRun symbols frame input)

end Matanos
