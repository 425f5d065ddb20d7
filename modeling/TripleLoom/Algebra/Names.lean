import TripleLoom.Algebra.Basic

/-!
# TripleLoom.Algebra.Names — the names of operators and functions

Operators with two operands go by a sign or a lower-case word, functions and aggregates by the
upper-case word that stands for them in a query.  No two of a kind have the same name.
-/

namespace TripleLoom

namespace BinaryOperator

/-- The name of an operator. -/
def name : BinaryOperator → String
  | or => "or"
  | and => "and"
  | equal => "="
  | sameTerm => "sameterm"
  | greater => ">"
  | greaterOrEqual => ">="
  | less => "<"
  | lessOrEqual => "<="
  | add => "+"
  | subtract => "-"
  | multiply => "*"
  | divide => "/"

/-- All operators. -/
def all : List BinaryOperator :=
  [or, and, equal, sameTerm, greater, greaterOrEqual, less, lessOrEqual, add, subtract, multiply,
    divide]

/-- The operator of a name. -/
def ofName? (name : String) : Option BinaryOperator := all.find? (·.name == name)

theorem ofName?_name (o : BinaryOperator) : ofName? o.name = some o := by
  cases o <;> decide

end BinaryOperator

namespace Builtin

/-- The name of a function. -/
def name : Builtin → String
  | str => "STR"
  | lang => "LANG"
  | langMatches => "LANGMATCHES"
  | datatype => "DATATYPE"
  | iri => "IRI"
  | bnode => "BNODE"
  | rand => "RAND"
  | abs => "ABS"
  | ceil => "CEIL"
  | floor => "FLOOR"
  | round => "ROUND"
  | concat => "CONCAT"
  | substr => "SUBSTR"
  | strLen => "STRLEN"
  | replace => "REPLACE"
  | ucase => "UCASE"
  | lcase => "LCASE"
  | encodeForUri => "ENCODE_FOR_URI"
  | contains => "CONTAINS"
  | strStarts => "STRSTARTS"
  | strEnds => "STRENDS"
  | strBefore => "STRBEFORE"
  | strAfter => "STRAFTER"
  | year => "YEAR"
  | month => "MONTH"
  | day => "DAY"
  | hours => "HOURS"
  | minutes => "MINUTES"
  | seconds => "SECONDS"
  | timezone => "TIMEZONE"
  | tz => "TZ"
  | now => "NOW"
  | uuid => "UUID"
  | strUuid => "STRUUID"
  | md5 => "MD5"
  | sha1 => "SHA1"
  | sha256 => "SHA256"
  | sha384 => "SHA384"
  | sha512 => "SHA512"
  | strLang => "STRLANG"
  | strDt => "STRDT"
  | isIri => "ISIRI"
  | isBlank => "ISBLANK"
  | isLiteral => "ISLITERAL"
  | isNumeric => "ISNUMERIC"
  | regex => "REGEX"

/-- All functions. -/
def all : List Builtin :=
  [str, lang, langMatches, datatype, iri, bnode, rand, abs, ceil, floor, round, concat, substr,
    strLen, replace, ucase, lcase, encodeForUri, contains, strStarts, strEnds, strBefore,
    strAfter, year, month, day, hours, minutes, seconds, timezone, tz, now, uuid, strUuid, md5,
    sha1, sha256, sha384, sha512, strLang, strDt, isIri, isBlank, isLiteral, isNumeric, regex]

/-- The function of a name. -/
def ofName? (name : String) : Option Builtin := all.find? (·.name == name)

theorem ofName?_name (f : Builtin) : ofName? f.name = some f := by
  cases f <;> decide

end Builtin

/-- The aggregates that need no more than their argument, by their names. -/
def AggregateFunction.plain : List (String × AggregateFunction) :=
  [("COUNT", .count), ("SUM", .sum), ("AVG", .avg), ("MIN", .min), ("MAX", .max),
    ("SAMPLE", .sample)]

end TripleLoom
