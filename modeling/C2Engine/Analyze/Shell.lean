import C2Engine.Python.Codec
import C2Engine.Python.Regex

/-!
# Unwrapping shell payloads

`analyze/shell.py`: the payloads attackers hide in `echo "..." | sh`, in Base64 and in `eval`,
found by patterns and unwrapped up to four times. `expandedText` is the text the indicator passes
run on: every command with its inner payloads, one line each.

## Main definitions

* `tryB64Decode`, `unwrapOnce`: one unwrapping.
* `expandCommand`: a command and the payloads inside it, breadth first.
* `expandedText`: all commands so expanded.

## Main results

* `mem_expandCommand_self`: a command is among its own pieces.
-/

namespace C2Engine

open Python

/-! ### Patterns -/

/-- `["']`. -/
def quoteRe : Re CodePoint := .set (PyStr.oneOf (str "\"'"))

/-- `[A-Za-z0-9+/=]` ignoring case. -/
def isBase64CharI (c : CodePoint) : Bool := Re.isAlnumI c || PyStr.oneOf (str "+/=") c

/-- `(?:-d|--decode)` ignoring case. -/
def decodeFlag : Re CodePoint := .oneOf [.litI (str "-d"), .litI (str "--decode")]

/-- The first of `_BASE64_PATTERNS`: `base64 -d <<< ...`. -/
def reB64HereString : Re CodePoint :=
  .cat [.litI (str "base64"), .plus .space, decodeFlag, .plus .space, .lit (str "<<<"),
    .star true .space, .opt quoteRe, .group 1 (.plus (.set isBase64CharI)), .opt quoteRe]

/-- The second of `_BASE64_PATTERNS`: `echo "..." | base64 -d`. -/
def reB64Echo : Re CodePoint :=
  .cat [.litI (str "echo"), .plus .space, quoteRe, .group 1 (.plus (.set isBase64CharI)), quoteRe,
    .star true .space, .char (cp '|'), .star true .space, .litI (str "base64"), .plus .space,
    decodeFlag]

/-- `_ECHO_PIPE_SH`. -/
def reEchoPipeSh : Re CodePoint :=
  .cat [.litI (str "echo"), .plus .space, quoteRe, .group 1 (.plusLazy .any), quoteRe,
    .star true .space, .char (cp '|'), .star true .space,
    .oneOf [.litI (str "sh"), .litI (str "bash"), .litI (str "/bin/sh"), .litI (str "/bin/bash")],
    .wordB]

/-- `_EVAL_SUBSHELL`. -/
def reEvalSubshell : Re CodePoint :=
  .cat [.litI (str "eval"), .plus .space, .plus (.set (PyStr.oneOf (str "\"`$("))),
    .group 1 (.plusLazy .any), .plus (.set (PyStr.oneOf (str "`)\"")))]

/-! ### Unwrapping -/

/-- `_try_b64_decode`. -/
def tryB64Decode (blob : PyStr) : Option PyStr :=
  let blob := blob.strip
  let blob := blob ++ List.replicate ((4 - blob.length % 4) % 4) (cp '=')
  (b64decode blob).map fun raw => (utf8Decode raw).getD (latin1Decode raw)

/-- The first group of every match. -/
def firstGroups (uni : Unicode) (re : Re CodePoint) (text : PyStr) : List PyStr :=
  (Re.finditer (Re.text uni) re text).filterMap fun m => m.group 1

/-- `_unwrap_once`. -/
def unwrapOnce (uni : Unicode) (text : PyStr) : List PyStr :=
  (([reB64HereString, reB64Echo].flatMap fun re => firstGroups uni re text).filterMap
    tryB64Decode).filter (fun s => !s.isEmpty) ++
  firstGroups uni reEchoPipeSh text ++ firstGroups uni reEvalSubshell text

/-- `_MAX_RECURSION`. -/
def maxRecursion : ℕ := 4

/-- The loop of `expanded_text` over one command, with the texts of `queue` to unwrap and those of
`seen` unwrapped or to be unwrapped. -/
def expandGo (uni : Unicode) : ℕ → (queue seen : List PyStr) → List PyStr
  | 0, _, _ => []
  | depth + 1, queue, seen =>
    let nxt := unseen seen (queue.flatMap (unwrapOnce uni))
    if nxt.isEmpty then [] else nxt ++ expandGo uni depth nxt (nxt ++ seen)

/-- A command and the payloads inside it. -/
def expandCommand (uni : Unicode) (raw : PyStr) : List PyStr :=
  raw :: expandGo uni maxRecursion [raw] [raw]

/-- The lines of `expanded_text(commands)`. -/
def expandedLines (uni : Unicode) (commands : List PyStr) : List PyStr :=
  commands.flatMap (expandCommand uni)

/-- `expanded_text(commands)`. -/
def expandedText (uni : Unicode) (commands : List PyStr) : PyStr :=
  PyStr.join [cp '\n'] (expandedLines uni commands)

theorem mem_expandCommand_self (uni : Unicode) (raw : PyStr) : raw ∈ expandCommand uni raw :=
  List.mem_cons_self

example : expandCommand .basic (str "echo 'wget x' | sh") =
    [str "echo 'wget x' | sh", str "wget x"] := by decide

end C2Engine
