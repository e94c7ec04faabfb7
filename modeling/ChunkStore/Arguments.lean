import ChunkStore.Command

/-!
# Arguments

A command line names a command and its words. Options may stand before the command and
among its words; those that every command has may be given in both places, and then the
inner one counts. No option is given twice in one place. After `--` there are only
words.
-/

namespace ChunkStore.Arguments

inductive Switch where
  /-- The settings file; the only option with a value. -/
  | config
  | verbose
  | help
  | version
  | long
  | human
  | fossil
  deriving Repr, DecidableEq

namespace Switch

def all : List Switch := [config, verbose, help, version, long, human, fossil]

def name : Switch → String
  | config => "config"
  | verbose => "verbose"
  | help => "help"
  | version => "version"
  | long => "long"
  | human => "human"
  | fossil => "fossil"

def letter? : Switch → Option Char
  | config => some 'c'
  | verbose => some 'v'
  | help => some 'h'
  | version => some 'V'
  | long => some 'l'
  | human => some 'H'
  | fossil => none

def named? (name : List Char) : Option Switch := all.find? (·.name.toList == name)

def lettered? (letter : Char) : Option Switch := all.find? (·.letter? == some letter)

end Switch

inductive Part where
  | switch (s : Switch)
  | file (name : String)
  | word (text : String)
  /-- The mark after which there are only words. -/
  | wordsOnly
  | unknown
  deriving Repr, DecidableEq

/-- An argument that begins as an option does. A single dash is a word. -/
def isOption (arg : List Char) : Bool := arg.head? == some '-' && arg != ['-']

/-- The parts in the letters after a dash, and whether the next argument is the value of
the last. The rest of the letters is the value of one that takes a value. -/
def letterParts : List Char → List Part × Bool
  | [] => ([], false)
  | c :: cs =>
    match Switch.lettered? c, cs with
    | none, _ => ([.unknown], false)
    | some .config, [] => ([], true)
    | some .config, '=' :: name => ([.file (String.ofList name)], false)
    | some .config, name => ([.file (String.ofList name)], false)
    | some s, cs =>
      let (parts, open_) := letterParts cs
      (.switch s :: parts, open_)

def nameParts (cs : List Char) : List Part × Bool :=
  let name := cs.takeWhile (· != '=')
  match Switch.named? name, cs.drop name.length with
  | some .config, [] => ([], true)
  | some .config, _ :: value => ([.file (String.ofList value)], false)
  | some s, [] => ([.switch s], false)
  | _, _ => ([.unknown], false)

def argumentParts : List Char → List Part × Bool
  | '-' :: '-' :: cs => nameParts cs
  | '-' :: cs => if cs.isEmpty then ([.word "-"], false) else letterParts cs
  | cs => ([.word (String.ofList cs)], false)

/-- The parts of a command line; `pending` if the first argument is the value of an
option. -/
def partsFrom (pending : Bool) : List String → List Part
  | [] => if pending then [.unknown] else []
  | arg :: args =>
    if pending then
      if isOption arg.toList then [.unknown] else .file arg :: partsFrom false args
    else if arg = "--" then .wordsOnly :: args.map .word
    else
      let (parts, pending) := argumentParts arg.toList
      parts ++ partsFrom pending args

def parts (args : List String) : List Part := partsFrom false args

inductive Stop where
  | help
  | version
  | misuse
  deriving Repr, DecidableEq

structure Reading where
  switches : List Switch := []
  file : Option String := none
  words : List String := []

structure Grammar where
  switches : List Switch := []
  /-- The most words there may be; none if any number. -/
  most : Option Nat := some 0
  make : Reading → Option Command := fun _ => none

def outermost : Grammar where
  switches := [.config, .verbose, .help, .version]

def grammar? (name : String) : Option Grammar :=
  if name = "ls" ∨ name = "dir" then some {
    switches := [.long, .human], most := some 1
    make := fun r =>
      some (.list (r.words.headD "") (.long ∈ r.switches) (.human ∈ r.switches)) }
  else if name = "stat" then some {
    most := some 1
    make := fun r => r.words.head?.map .stat }
  else if name = "mkdir" then some {
    most := none
    make := fun r => if r.words.isEmpty then none else some (.makeFolders r.words) }
  else if name = "rm" then some {
    most := none
    make := fun r => if r.words.isEmpty then none else some (.remove r.words) }
  else if name = "mv" then some {
    most := some 2
    make := fun r =>
      match r.words with
      | [source, target] => some (.move source target)
      | _ => none }
  else if name = "find-chunk" then some {
    switches := [.fossil], most := some 1
    make := fun r => r.words.head?.map fun id => .findChunk id (.fossil ∈ r.switches) }
  else if name = "chunks" then some {
    switches := [.human]
    make := fun r => some (.listChunks (.human ∈ r.switches)) }
  else if name = "get" then some {
    most := some 2
    make := fun r =>
      match r.words with
      | [path] => some (.get path none)
      | [path, file] => if file = "" then none else some (.get path (some file))
      | _ => none }
  else if name = "put" then some {
    most := some 2
    make := fun r =>
      match r.words with
      | [file, path] => if file = "" then none else some (.put file path)
      | _ => none }
  else if name = "caps" then some { make := fun _ => some .capabilities }
  else none

def Reading.feed (g : Grammar) (r : Reading) : Part → Except Stop Reading
  | .switch .help => .error .help
  | .switch s =>
    if s ∉ [.config, .verbose] ++ g.switches ∨ s ∈ r.switches then .error .misuse
    else if s = .version then .error .version
    else .ok { r with switches := s :: r.switches }
  | .file name =>
    if name = "" ∨ r.file.isSome then .error .misuse else .ok { r with file := some name }
  | .word text =>
    if g.most.all (r.words.length < ·) then .ok { r with words := r.words ++ [text] }
    else .error .misuse
  | .wordsOnly => .ok r
  | .unknown => .error .misuse

structure Invocation where
  file : Option String
  verbose : Bool
  command : Command
  deriving Repr, DecidableEq

def helpOn : List Part → Stop
  | [] => .help
  | [.word name] => if name = "help" ∨ (grammar? name).isSome then .help else .misuse
  | _ => .misuse

def readFrom (r : Reading) : List Part → Except Stop Invocation
  | [] => .error .misuse
  | .word name :: parts =>
    if name = "help" then .error (helpOn parts)
    else
      match grammar? name with
      | none => .error .misuse
      | some g => do
        let inner ← parts.foldlM (Reading.feed g) {}
        match g.make inner with
        | some command =>
          return { file := inner.file.or r.file
                   verbose := .verbose ∈ inner.switches ++ r.switches
                   command }
        | none => .error .misuse
  | .wordsOnly :: _ => .error .misuse
  | part :: parts => do readFrom (← r.feed outermost part) parts

def read (args : List String) : Except Stop Invocation := readFrom {} (parts args)

end ChunkStore.Arguments
