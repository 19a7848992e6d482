/-
This file models `detector.rs`: matching one source record against the detector of a
policy.

What the detectors take from other crates is given from outside. A compiled regular
expression is the captures it yields on a text, a parsed JSON document is the value it
holds under each pointer, and the parsers of addresses and dates are functions. A
detector with context patterns remembers the lines of every correlation key; this
memory is passed along explicitly.
-/

import Bagel.Network
import Bagel.Library.Sorted

namespace Bagel

/-! ### What other crates provide -/

/-- A compiled `Regex`: the named groups that take part in its first match. -/
structure Pattern where
  captures : String → Option (String → Option String)

def Pattern.isMatch (pattern : Pattern) (text : String) : Bool :=
  (pattern.captures text).isSome

/-- A number of a JSON document: its value as either integer type, and the texts that parse
to the same floating-point value. -/
structure JsonNumber where
  asI64 : Option Int
  asU64 : Option Nat
  floatMatches : String → Bool

inductive JsonValue where
  | null
  | bool (value : Bool)
  | number (value : JsonNumber)
  | string (value : String)
  | array
  | object

/-- A parsed JSON document, as its value under each pointer. -/
structure JsonDocument where
  pointer : String → Option JsonValue

structure Parsers where
  /-- `IpNetwork::from_str`. -/
  ipNetwork : String → Option IpNetwork
  /-- `IpAddr::from_str`. -/
  ipAddr : String → Option IpAddr
  /-- The seconds of an RFC 3339 timestamp. -/
  rfc3339 : String → Option Int
  /-- The seconds of a date in the given `strptime` format. -/
  strptime : String → String → Option Int
  json : String → Option JsonDocument

/-! ### Values -/

/-- The decimal number of some digits. -/
def parseDigits (digits : List Char) : Option Nat :=
  if digits.isEmpty || !digits.all Char.isDigit then none
  else some (digits.foldl (fun value digit => 10 * value + (digit.toNat - '0'.toNat)) 0)

/-- `str::parse::<u64>`, which allows a leading plus sign. -/
def parseU64 (raw : String) : Option Nat :=
  let digits := match raw.toList with
    | '+' :: rest => rest
    | digits => digits
  (parseDigits digits).filter fun value => decide (value < 2 ^ 64)

/-- `str::parse::<i64>`. -/
def parseI64 (raw : String) : Option Int :=
  match raw.toList with
  | '-' :: rest => ((parseDigits rest).filter fun value => decide (value ≤ 2 ^ 63)).map fun value =>
      -(value : Int)
  | '+' :: rest => ((parseDigits rest).filter fun value => decide (value < 2 ^ 63)).map Int.ofNat
  | digits => ((parseDigits digits).filter fun value => decide (value < 2 ^ 63)).map Int.ofNat

/-- `str::parse::<bool>`. -/
def parseBool (raw : String) : Option Bool :=
  if raw = "true" then some true else if raw = "false" then some false else none

def jsonValueMatches (actual : JsonValue) (expected : String) : Bool :=
  match actual with
  | .null => expected == "null"
  | .bool value => parseBool expected == some value
  | .number value =>
    (value.asI64.any fun integer => parseI64 expected == some integer) ||
      (value.asU64.any fun integer => parseU64 expected == some integer) ||
      value.floatMatches expected
  | .string value => value == expected
  | .array => false
  | .object => false

def JsonValue.asStr : JsonValue → Option String
  | string value => some value
  | _ => none

/-- `parse_network` of `detector.rs`. -/
def Parsers.parseNetwork (parsers : Parsers) (raw : String) : Option IpNetwork :=
  if raw.toList.contains '/' then parsers.ipNetwork raw
  else (parsers.ipAddr raw).map hostNetwork

inductive TimestampFormat where
  | rfc3339
  | unix
  | strptime (format : String)
  deriving DecidableEq

/-- `u64::try_from` of a signed number of seconds. -/
def secondsOf (seconds : Int) : Option Nat :=
  if 0 ≤ seconds then some seconds.toNat else none

/-- `parse_timestamp`. The parsed number of seconds of the Unix format must fit SQLite. -/
def Parsers.parseTimestamp (parsers : Parsers) (raw : String) : TimestampFormat → Option Nat
  | .unix => (parseU64 raw).filter fun timestamp => decide (timestamp ≤ 2 ^ 63 - 1)
  | .rfc3339 => (parsers.rfc3339 raw).bind secondsOf
  | .strptime format => (parsers.strptime format raw).bind secondsOf

/-! ### Detectors -/

structure Detection where
  network : IpNetwork
  observedAt : Nat
  attemptKey : Option String
  groupKey : Option String
  deriving DecidableEq

/-- What a detector with context patterns remembers of one correlation key. -/
structure ContextEntry where
  lastSeen : Nat
  lines : List String
  deriving DecidableEq

/-- The memory of a detector, ordered by correlation key. -/
def Context : Type := List (String × ContextEntry)

structure RegexDetector where
  prefilter : Option Pattern
  patterns : List Pattern
  contextPatterns : List Pattern
  maxContextLines : Nat
  contextWindowSecs : Nat
  ignore : List Pattern
  addressCapture : String
  timestampCapture : Option String
  timestampFormat : TimestampFormat

structure JsonDetector where
  equals : List (String × String)
  addressPointer : String
  timestampPointer : Option String
  groupKeyPointer : Option String
  timestampFormat : TimestampFormat

inductive CompiledDetector where
  | regex (detector : RegexDetector)
  | json (detector : JsonDetector)

/-- The most correlation keys a detector remembers. -/
def contextCapacity : Nat := 4096

/-- `min_by_key` on the time an entry was last seen: the first of the oldest. -/
def oldestKey (cache : Context) : Option String :=
  (cache.foldl (fun oldest entry =>
    match oldest with
    | none => some entry
    | some best => if entry.2.lastSeen < best.2.lastSeen then some entry else some best)
    (none : Option (String × ContextEntry))).map Prod.fst

namespace RegexDetector

variable (parsers : Parsers) (detector : RegexDetector)

/-- One pattern on a text. -/
def detectPattern (receivedAt : Nat) (text : String) (pattern : Pattern) : Option Detection := do
  let captures ← pattern.captures text
  let network ← parsers.parseNetwork (← captures detector.addressCapture)
  let timestamp := do
    let name ← detector.timestampCapture
    parsers.parseTimestamp (← captures name) detector.timestampFormat
  return ⟨network, timestamp.getD receivedAt, captures "attempt_key", captures "group_key"⟩

/-- The first of some patterns that yields a detection. -/
def detectText (receivedAt : Nat) (text : String) (patterns : List Pattern) : Option Detection :=
  patterns.findSome? (detector.detectPattern parsers receivedAt text)

/-- The part of a record that the patterns see. -/
def content (record : String) : Option String :=
  match detector.prefilter with
  | none => some record
  | some pattern => do
    let captures ← pattern.captures record
    captures "content"

/-- Drop the stale entries, and the oldest one if a new key finds the memory full. -/
def evict (receivedAt : Nat) (key : String) (cache : Context) : Context :=
  let fresh : Context :=
    cache.filter fun entry => decide (receivedAt - detector.contextWindowSecs ≤ entry.2.lastSeen)
  if (fresh.any fun entry => entry.1 == key) || decide (fresh.length < contextCapacity) then fresh
  else
    match oldestKey fresh with
    | none => fresh
    | some oldest => fresh.filter fun entry => entry.1 != oldest

/-- The remembered lines of a key and the new one, joined by newlines. -/
def joinLines (lines : List String) (content : String) : String :=
  let joined := lines.foldl (fun joined line =>
    (if joined.isEmpty then joined else joined.push '\n') ++ line) ""
  (if joined.isEmpty then joined else joined.push '\n') ++ content

def detect (context : Context) (record : String) (receivedAt : Nat) (correlation : Option String) :
    Context × Option Detection :=
  if detector.ignore.any fun pattern => pattern.isMatch record then (context, none)
  else
    match detector.content record with
    | none => (context, none)
    | some content =>
      let direct := detector.detectText parsers receivedAt content detector.patterns
      if detector.contextPatterns.isEmpty then (context, direct)
      else
        match correlation with
        | none => (context, direct)
        | some key =>
          let cache := detector.evict receivedAt key context
          let lines := ((cache.lookup key).map ContextEntry.lines).getD []
          let contextual := detector.detectText parsers receivedAt (joinLines lines content)
            detector.contextPatterns
          let pushed := lines ++ [content]
          let kept := pushed.drop (pushed.length - detector.maxContextLines)
          let entry : ContextEntry := ⟨receivedAt, kept⟩
          (Sorted.alter key entry (fun _ => entry) cache, direct <|> contextual)

end RegexDetector

def JsonDetector.detect (parsers : Parsers) (detector : JsonDetector) (record : String)
    (receivedAt : Nat) : Option Detection := do
  let value ← parsers.json record
  guard (detector.equals.all fun (pointer, expected) =>
    (value.pointer pointer).any fun actual => jsonValueMatches actual expected)
  let network ← parsers.parseNetwork (← (← value.pointer detector.addressPointer).asStr)
  let timestamp := do
    let raw ← (← value.pointer (← detector.timestampPointer)).asStr
    parsers.parseTimestamp raw detector.timestampFormat
  let groupKey ← match detector.groupKeyPointer with
    | none => some none
    | some pointer => ((value.pointer pointer).bind JsonValue.asStr).map some
  return ⟨network, timestamp.getD receivedAt, none, groupKey⟩

/-- Match one complete source record. -/
def CompiledDetector.detect (parsers : Parsers) (detector : CompiledDetector) (context : Context)
    (record : String) (receivedAt : Nat) (correlation : Option String) :
    Context × Option Detection :=
  match detector with
  | regex detector => detector.detect parsers context record receivedAt correlation
  | json detector => (context, detector.detect parsers record receivedAt)

end Bagel
