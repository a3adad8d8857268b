import Mathlib.Tactic.Basic
import Ixion.Token

/-!
# Names of built-in functions

The table of built-in functions, in which `getFunctionOpcode` looks a name up after
turning it into upper case.  A character stands for one byte: a byte above `0x7f` is
negative as a character and stays as it is.
-/

namespace Ixion

namespace BuiltinFuncs

/-- The functions that have a handler, by name. -/
def handled : List (String × FormulaFunction) :=
  [("ABS", .funcAbs), ("AND", .funcAnd), ("AVERAGE", .funcAverage), ("COLUMN", .funcColumn),
   ("COLUMNS", .funcColumns), ("CONCATENATE", .funcConcatenate), ("COUNT", .funcCount),
   ("COUNTA", .funcCounta), ("COUNTBLANK", .funcCountblank), ("EXACT", .funcExact),
   ("FALSE", .funcFalse), ("FIND", .funcFind), ("IF", .funcIf), ("INT", .funcInt),
   ("ISBLANK", .funcIsblank), ("ISERR", .funcIserr), ("ISERROR", .funcIserror),
   ("ISEVEN", .funcIseven), ("ISFORMULA", .funcIsformula), ("ISLOGICAL", .funcIslogical),
   ("ISNA", .funcIsna), ("ISNONTEXT", .funcIsnontext), ("ISNUMBER", .funcIsnumber),
   ("ISODD", .funcIsodd), ("ISREF", .funcIsref), ("ISTEXT", .funcIstext), ("LEFT", .funcLeft),
   ("LEN", .funcLen), ("MAX", .funcMax), ("MEDIAN", .funcMedian), ("MID", .funcMid),
   ("MIN", .funcMin), ("MMULT", .funcMmult), ("MODE", .funcMode), ("N", .funcN),
   ("NA", .funcNa), ("NOT", .funcNot), ("NOW", .funcNow), ("OR", .funcOr), ("PI", .funcPi),
   ("REPLACE", .funcReplace), ("REPT", .funcRept), ("RIGHT", .funcRight), ("ROW", .funcRow),
   ("ROWS", .funcRows), ("SHEET", .funcSheet), ("SHEETS", .funcSheets),
   ("SUBSTITUTE", .funcSubstitute), ("SUBTOTAL", .funcSubtotal), ("SUM", .funcSum),
   ("T", .funcT), ("TEXTJOIN", .funcTextjoin), ("TRIM", .funcTrim), ("TRUE", .funcTrue),
   ("TYPE", .funcType), ("WAIT", .funcWait)]

/-- The names of the functions that are known but not implemented. -/
def unimplementedNames : List String :=
  ["ACOS", "ACOSH", "ACOT", "ACOTH", "ADDRESS", "AGGREGATE", "ARABIC", "AREAS", "ASC", "ASIN",
   "ASINH", "ATAN", "ATAN2", "ATANH", "AVEDEV", "AVERAGEA", "AVERAGEIF", "AVERAGEIFS", "B",
   "BAHTTEXT", "BASE", "BETADIST", "BETAINV", "BINOMDIST", "BITAND", "BITLSHIFT", "BITOR",
   "BITRSHIFT", "BITXOR", "CEILING", "CELL", "CHAR", "CHIDIST", "CHIINV", "CHISQDIST",
   "CHISQINV", "CHITEST", "CHOOSE", "CLEAN", "CODE", "COLOR", "COMBIN", "COMBINA", "CONCAT",
   "CONFIDENCE", "CORREL", "COS", "COSH", "COT", "COTH", "COUNTIF", "COUNTIFS", "COVAR",
   "CRITBINOM", "CSC", "CSCH", "CUMIPMT", "CUMPRINC", "CURRENT", "DATE", "DATEDIF", "DATEVALUE",
   "DAVERAGE", "DAY", "DAYS", "DAYS360", "DB", "DCOUNT", "DCOUNTA", "DDB", "DDE", "DECIMAL",
   "DEGREES", "DEVSQ", "DGET", "DMAX", "DMIN", "DOLLAR", "DPRODUCT", "DSTDEV", "DSTDEVP",
   "DSUM", "DVAR", "DVARP", "EASTERSUNDAY", "EFFECT", "ENCODEURL", "ERRORTYPE", "EUROCONVERT",
   "EVEN", "EXP", "EXPONDIST", "FACT", "FDIST", "FILTERXML", "FINDB", "FINV", "FISHER",
   "FISHERINV", "FIXED", "FLOOR", "FORECAST", "FORMULA", "FOURIER", "FREQUENCY", "FTEST", "FV",
   "GAMMA", "GAMMADIST", "GAMMAINV", "GAMMALN", "GAUSS", "GCD", "GEOMEAN", "GETPIVOTDATA",
   "GOALSEEK", "GROWTH", "HARMEAN", "HLOOKUP", "HOUR", "HYPERLINK", "HYPGEOMDIST", "IFERROR",
   "IFNA", "IFS", "INDEX", "INDIRECT", "INFO", "INTERCEPT", "IPMT", "IRR", "ISOWEEKNUM",
   "ISPMT", "JIS", "KURT", "LARGE", "LCM", "LEFTB", "LENB", "LINEST", "LN", "LOG", "LOG10",
   "LOGEST", "LOGINV", "LOGNORMDIST", "LOOKUP", "LOWER", "MATCH", "MAXA", "MAXIFS", "MDETERM",
   "MIDB", "MINA", "MINIFS", "MINUTE", "MINVERSE", "MIRR", "MOD", "MONTH", "MULTIRANGE",
   "MUNIT", "MVALUE", "NEG", "NEGBINOMDIST", "NETWORKDAYS", "NOMINAL", "NORMDIST", "NORMINV",
   "NORMSDIST", "NORMSINV", "NPER", "NPV", "NUMBERVALUE", "ODD", "OFFSET", "PDURATION",
   "PEARSON", "PERCENTILE", "PERCENTRANK", "PERMUT", "PERMUTATIONA", "PHI", "PMT", "POISSON",
   "POWER", "PPMT", "PROB", "PRODUCT", "PROPER", "PV", "QUARTILE", "RADIANS", "RAND", "RANK",
   "RATE", "RAWSUBTRACT", "REGEX", "REPLACEB", "RIGHTB", "ROMAN", "ROUND", "ROUNDDOWN",
   "ROUNDSIG", "ROUNDUP", "RRI", "RSQ", "SEARCH", "SEARCHB", "SEC", "SECH", "SECOND", "SIGN",
   "SIN", "SINH", "SKEW", "SKEWP", "SLN", "SLOPE", "SMALL", "SQRT", "STANDARDIZE", "STDEV",
   "STDEVA", "STDEVP", "STDEVPA", "STEYX", "STYLE", "SUMIF", "SUMIFS", "SUMPRODUCT", "SUMSQ",
   "SUMX2MY2", "SUMX2PY2", "SUMXMY2", "SWITCH", "SYD", "TAN", "TANH", "TDIST", "TEXT", "TIME",
   "TIMEVALUE", "TINV", "TODAY", "TRANSPOSE", "TREND", "TRIMMEAN", "TRUNC", "TTEST", "UNICHAR",
   "UNICODE", "UPPER", "VALUE", "VAR", "VARA", "VARP", "VARPA", "VDB", "VLOOKUP", "WEBSERVICE",
   "WEEKDAY", "WEEKNUM", "WEIBULL", "XOR", "YEAR", "ZTEST"]

/-- The built-in functions by name. -/
def entries : List (String × FormulaFunction) :=
  handled ++ unimplementedNames.map fun name ↦ (name, .unimplemented name)

/-- The characters that names of functions are made of. -/
def isNameChar (c : Char) : Bool := c.isUpper || c.isDigit

theorem all_entries :
    entries.all (fun e ↦ e.1.toList.all isNameChar && !e.1.toList.isEmpty) = true := by
  decide +kernel

theorem isNameChar_of_mem_entries :
    ∀ e ∈ entries, ∀ c ∈ e.1.toList, isNameChar c = true := by
  intro e he
  have h := List.all_eq_true.mp all_entries e he
  rw [Bool.and_eq_true] at h
  exact List.all_eq_true.mp h.1

theorem ne_empty_of_mem_entries : ∀ e ∈ entries, e.1.toList ≠ [] := by
  intro e he hnil
  have h := List.all_eq_true.mp all_entries e he
  rw [Bool.and_eq_true, hnil] at h
  exact absurd h.2 nofun

end BuiltinFuncs

namespace FormulaFunctions

open BuiltinFuncs

/-- One character in upper case.  Every character above `'Z'` is moved, whether it is a
letter or not. -/
def toUpper (c : Char) : Char :=
  if 'Z' < c ∧ c.toNat < 128 then Char.ofNat (c.toNat - ('a'.toNat - 'A'.toNat)) else c

/-- The built-in function with a name. -/
def getFunctionOpcode (s : List Char) : Option FormulaFunction :=
  entries.lookup (String.ofList (s.map toUpper))

/-- A string is not the name of a function if it has a character that does not become
one of those that names are made of. -/
theorem getFunctionOpcode_eq_none {s : List Char} {c : Char} (hc : c ∈ s)
    (h : isNameChar (toUpper c) = false) : getFunctionOpcode s = none := by
  rw [getFunctionOpcode, List.lookup_eq_none_iff]
  intro e he
  rw [bne_iff_ne]
  intro heq
  have hmem : toUpper c ∈ e.1.toList := by
    rw [← heq, String.toList_ofList]
    exact List.mem_map_of_mem hc
  rw [isNameChar_of_mem_entries e he _ hmem] at h
  exact absurd h nofun

@[simp] theorem getFunctionOpcode_nil : getFunctionOpcode [] = none := by
  rw [getFunctionOpcode, List.lookup_eq_none_iff]
  intro e he
  rw [bne_iff_ne]
  intro heq
  apply ne_empty_of_mem_entries e he
  rw [← heq]
  exact String.toList_ofList

end FormulaFunctions

end Ixion
