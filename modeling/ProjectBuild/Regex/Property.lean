import ProjectBuild.Regex.Syntax
import ProjectBuild.Text.Invisible
import ProjectBuild.Text.Wordy

/-!
# Properties of characters

The properties that patterns can name. Letter case, blanks, hyphens and underscores in a name do
not matter. For ASCII the answers are exact; other characters are only told apart as letters,
digits, blanks, characters that do not show, and symbols.
-/

namespace ProjectBuild.Regex.Property

/-- A name without what does not matter in it. -/
def normal (name : String) : String :=
  let chars := name.toList.filterMap fun c =>
    if c == ' ' || c == '_' || c == '-' then none
    else if c.toNat < 0x80 then some c.toLower else none
  match chars with
  | 'i' :: 's' :: c :: rest => String.ofList (c :: rest)
  | chars => String.ofList chars

/-- The general categories by their names, each with its short name. -/
def categories : List (String × String) := [
  ("other", "c"), ("control", "cc"), ("cntrl", "cc"), ("format", "cf"), ("unassigned", "cn"),
  ("privateuse", "co"), ("surrogate", "cs"), ("letter", "l"), ("casedletter", "lc"),
  ("lowercaseletter", "ll"), ("modifierletter", "lm"), ("otherletter", "lo"),
  ("titlecaseletter", "lt"), ("uppercaseletter", "lu"), ("mark", "m"), ("combiningmark", "m"),
  ("spacingmark", "mc"), ("enclosingmark", "me"), ("nonspacingmark", "mn"), ("number", "n"),
  ("decimalnumber", "nd"), ("digit", "nd"), ("letternumber", "nl"), ("othernumber", "no"),
  ("punctuation", "p"), ("punct", "p"), ("connectorpunctuation", "pc"),
  ("dashpunctuation", "pd"), ("closepunctuation", "pe"), ("finalpunctuation", "pf"),
  ("initialpunctuation", "pi"), ("otherpunctuation", "po"), ("openpunctuation", "ps"),
  ("symbol", "s"), ("currencysymbol", "sc"), ("modifiersymbol", "sk"), ("mathsymbol", "sm"),
  ("othersymbol", "so"), ("separator", "z"), ("lineseparator", "zl"),
  ("paragraphseparator", "zp"), ("spaceseparator", "zs")]

/-- The short name of a general category. -/
def category? (name : String) : Option String :=
  match categories.lookup name with
  | some short => some short
  | none => if categories.any fun entry => entry.2 == name then some name else none

/-- The general category of a character. -/
def categoryOf (c : Char) : String :=
  if 0x80 ≤ c.toNat then
    if Text.isDecimal c then "nd"
    else if Text.isWordy c then "lo"
    else if Text.isBlank c then "zs"
    else if Text.isInvisible c then "cn"
    else "so"
  else if c.isUpper then "lu"
  else if c.isLower then "ll"
  else if c.isDigit then "nd"
  else if c == ' ' then "zs"
  else if c.toNat < 0x20 || c.toNat == 0x7F then "cc"
  else if c == '_' then "pc"
  else if c == '-' then "pd"
  else if "([\x7b".toList.contains c then "ps"
  else if ")]\x7d".toList.contains c then "pe"
  else if c == '$' then "sc"
  else if "^\x60".toList.contains c then "sk"
  else if "+<=>|~".toList.contains c then "sm"
  else "po"

/-- Whether a character is in a general category, given by its short name. -/
def inCategory (short : String) (c : Char) : Bool :=
  let own := categoryOf c
  if short = "lc" then own == "lu" || own == "ll"
  else short.toList.isPrefixOf own.toList

/-- Scripts by their names, with their short names. -/
def scripts : List String := [
  "adlam", "adlm", "ahom", "anatolianhieroglyphs", "hluw", "arabic", "arab", "armenian", "armn",
  "avestan", "avst", "balinese", "bali", "bamum", "bamu", "bassavah", "bass", "batak", "batk",
  "bengali", "beng", "bhaiksuki", "bhks", "bopomofo", "bopo", "brahmi", "brah", "braille", "brai",
  "buginese", "bugi", "buhid", "buhd", "canadianaboriginal", "cans", "carian", "cari",
  "caucasianalbanian", "aghb", "chakma", "cakm", "cham", "cherokee", "cher", "chorasmian", "chrs",
  "common", "zyyy", "coptic", "copt", "qaac", "cuneiform", "xsux", "cypriot", "cprt",
  "cyprominoan", "cpmn", "cyrillic", "cyrl", "deseret", "dsrt", "devanagari", "deva",
  "divesakuru", "diak", "dogra", "dogr", "duployan", "dupl", "egyptianhieroglyphs", "egyp",
  "elbasan", "elba", "elymaic", "elym", "ethiopic", "ethi", "garay", "gara", "georgian", "geor",
  "glagolitic", "glag", "gothic", "goth", "grantha", "gran", "greek", "grek", "gujarati", "gujr",
  "gunjalagondi", "gong", "gurmukhi", "guru", "gurungkhema", "gukh", "han", "hani", "hangul",
  "hang", "hanifirohingya", "rohg", "hanunoo", "hano", "hatran", "hatr", "hebrew", "hebr",
  "hiragana", "hira", "imperialaramaic", "armi", "inherited", "zinh", "qaai",
  "inscriptionalpahlavi", "phli", "inscriptionalparthian", "prti", "javanese", "java", "kaithi",
  "kthi", "kannada", "knda", "katakana", "kana", "kawi", "kayahli", "kali", "kharoshthi", "khar",
  "khitansmallscript", "kits", "khmer", "khmr", "khojki", "khoj", "khudawadi", "sind", "kiratrai",
  "krai", "lao", "laoo", "latin", "latn", "lepcha", "lepc", "limbu", "limb", "lineara", "lina",
  "linearb", "linb", "lisu", "lycian", "lyci", "lydian", "lydi", "mahajani", "mahj", "makasar",
  "maka", "malayalam", "mlym", "mandaic", "mand", "manichaean", "mani", "marchen", "marc",
  "masaramgondi", "gonm", "medefaidrin", "medf", "meeteimayek", "mtei", "mendekikakui", "mend",
  "meroiticcursive", "merc", "meroitichieroglyphs", "mero", "miao", "plrd", "modi", "mongolian",
  "mong", "mro", "mroo", "multani", "mult", "myanmar", "mymr", "nabataean", "nbat", "nagmundari",
  "nagm", "nandinagari", "nand", "newa", "newtailue", "talu", "nko", "nkoo", "nushu", "nshu",
  "nyiakengpuachuehmong", "hmnp", "ogham", "ogam", "olchiki", "olck", "oldhungarian", "hung",
  "olditalic", "ital", "oldnortharabian", "narb", "oldpermic", "perm", "oldpersian", "xpeo",
  "oldsogdian", "sogo", "oldsoutharabian", "sarb", "oldturkic", "orkh", "olduyghur", "ougr",
  "olonal", "onao", "oriya", "orya", "osage", "osge", "osmanya", "osma", "pahawhhmong", "hmng",
  "palmyrene", "palm", "paucinhau", "pauc", "phagspa", "phag", "phoenician", "phnx",
  "psalterpahlavi", "phlp", "rejang", "rjng", "runic", "runr", "samaritan", "samr", "saurashtra",
  "saur", "sharada", "shrd", "shavian", "shaw", "siddham", "sidd", "signwriting", "sgnw",
  "sinhala", "sinh", "sogdian", "sogd", "sorasompeng", "sora", "soyombo", "soyo", "sundanese",
  "sund", "sunuwar", "sunu", "sylotinagri", "sylo", "syriac", "syrc", "tagalog", "tglg",
  "tagbanwa", "tagb", "taile", "tale", "taitham", "lana", "taiviet", "tavt", "takri", "takr",
  "tamil", "taml", "tangsa", "tnsa", "tangut", "tang", "telugu", "telu", "thaana", "thaa", "thai",
  "tibetan", "tibt", "tifinagh", "tfng", "tirhuta", "tirh", "todhri", "todr", "toto",
  "tulutigalari", "tutg", "ugaritic", "ugar", "vai", "vaii", "vithkuqi", "vith", "wancho", "wcho",
  "warangciti", "wara", "yezidi", "yezi", "yi", "yiii", "zanabazarsquare", "zanb"]

/-- Whether a character belongs to a script. -/
def inScript (script : String) (c : Char) : Bool :=
  if script = "latin" || script = "latn" then c.isAlpha
  else if script = "common" || script = "zyyy" then decide (c.toNat < 0x80) && !c.isAlpha
  else false

/-- Yes-or-no properties by their names, each with its short name. -/
def features : List (String × String) := [
  ("asciihexdigit", "ahex"), ("alphabetic", "alpha"), ("bidicontrol", "bidic"),
  ("bidimirrored", "bidim"), ("cased", "cased"), ("caseignorable", "ci"),
  ("changeswhencasefolded", "cwcf"), ("changeswhencasemapped", "cwcm"),
  ("changeswhenlowercased", "cwl"), ("changeswhentitlecased", "cwt"),
  ("changeswhenuppercased", "cwu"), ("dash", "dash"), ("defaultignorablecodepoint", "di"),
  ("deprecated", "dep"), ("diacritic", "dia"), ("emoji", "emoji"), ("emojicomponent", "ecomp"),
  ("emojimodifier", "emod"), ("emojimodifierbase", "ebase"), ("emojipresentation", "epres"),
  ("extendedpictographic", "extpict"), ("extender", "ext"), ("graphemebase", "grbase"),
  ("graphemeextend", "grext"), ("hexdigit", "hex"), ("idcompatmathcontinue", "idcompatmathcontinue"),
  ("idcompatmathstart", "idcompatmathstart"), ("idcontinue", "idc"), ("idstart", "ids"),
  ("idsbinaryoperator", "idsb"), ("idstrinaryoperator", "idst"), ("idsunaryoperator", "idsu"),
  ("ideographic", "ideo"), ("joincontrol", "joinc"), ("logicalorderexception", "loe"),
  ("lowercase", "lower"), ("math", "math"), ("modifiercombiningmark", "mcm"),
  ("noncharactercodepoint", "nchar"), ("patternsyntax", "patsyn"),
  ("patternwhitespace", "patws"), ("prependedconcatenationmark", "pcm"),
  ("quotationmark", "qmark"), ("radical", "radical"), ("regionalindicator", "ri"),
  ("sentenceterminal", "sterm"), ("softdotted", "sd"), ("terminalpunctuation", "term"),
  ("unifiedideograph", "uideo"), ("uppercase", "upper"), ("variationselector", "vs"),
  ("whitespace", "wspace"), ("xidcontinue", "xidc"), ("xidstart", "xids")]

/-- The long name of a yes-or-no property. -/
def feature? (name : String) : Option String :=
  if name = "space" then some "whitespace"
  else if features.any fun entry => entry.1 == name then some name
  else (features.find? fun entry => entry.2 == name).map Prod.fst

def isHex (c : Char) : Bool :=
  c.isDigit || ('a' ≤ c && c ≤ 'f') || ('A' ≤ c && c ≤ 'F')

/-- Whether a character has a yes-or-no property. -/
def hasFeature (feature : String) (c : Char) : Bool :=
  let ascii := decide (c.toNat < 0x80)
  let letter := if ascii then c.isAlpha else Text.isWordy c && !Text.isDecimal c
  match feature with
  | "alphabetic" => letter
  | "idstart" => letter
  | "xidstart" => letter
  | "idcontinue" => Text.isWordy c
  | "xidcontinue" => Text.isWordy c
  | "cased" => letter
  | "lowercase" => c.isLower
  | "uppercase" => c.isUpper
  | "changeswhencasefolded" => c.isUpper
  | "changeswhenlowercased" => c.isUpper
  | "changeswhentitlecased" => c.isLower
  | "changeswhenuppercased" => c.isLower
  | "changeswhencasemapped" => c.isAlpha
  | "asciihexdigit" => isHex c
  | "hexdigit" => isHex c
  | "whitespace" => Text.isBlank c
  | "patternwhitespace" => Text.isBlank c
  | "dash" => c == '-'
  | "diacritic" => c == '^' || c == '\x60'
  | "quotationmark" => c == '"' || c == '\''
  | "math" => "+<=>|~^".toList.contains c
  | "bidimirrored" => "()<>[]\x7b\x7d".toList.contains c
  | "caseignorable" => "'.:^\x60".toList.contains c
  | "emoji" => c == '#' || c == '*' || c.isDigit
  | "emojicomponent" => c == '#' || c == '*' || c.isDigit
  | "softdotted" => c == 'i' || c == 'j'
  | "sentenceterminal" => "!.?".toList.contains c
  | "terminalpunctuation" => "!,.:;?".toList.contains c
  | "patternsyntax" => ascii && !c.isAlphanum && c != '_' && decide (0x20 < c.toNat) && c != '\x7f'
  | "graphemebase" => if ascii then decide (0x20 ≤ c.toNat) && c != '\x7f' else !Text.isInvisible c
  | _ => false

/-- The characters that a name of a property stands for, or why there are none. -/
def ofName (name : PropertyName) : Except ProblemKind (Char → Bool) :=
  let single (name : String) : Except ProblemKind (Char → Bool) :=
    let name := normal name
    match (if ["cf", "sc", "lc"].contains name then none else feature? name), category? name with
    | some feature, _ => .ok (hasFeature feature)
    | none, some short => .ok (inCategory short)
    | none, none =>
      if name = "any" then .ok fun _ => true
      else if name = "ascii" then .ok fun c => decide (c.toNat < 0x80)
      else if name = "assigned" then .ok fun c => categoryOf c != "cn"
      else if scripts.contains name then .ok (inScript name)
      else .error .propertyNotFound
  match name with
  | .letter c => single (String.ofList [c])
  | .plain name => single name
  | .valued name value differs =>
    let turned (holds : Char → Bool) (c : Char) : Bool := holds c != differs
    match normal name with
    | "gc" => valueIn category? inCategory turned (normal value)
    | "generalcategory" => valueIn category? inCategory turned (normal value)
    | name =>
      if ["sc", "script", "scx", "scriptextensions"].contains name then
        valueIn (fun value => if scripts.contains value then some value else none) inScript turned
          (normal value)
      else if ["age", "gcb", "graphemeclusterbreak", "wb", "wordbreak", "sb",
          "sentencebreak"].contains name then .error .propertyValueNotFound
      else .error .propertyNotFound
where
  valueIn (find? : String → Option String) (holds : String → Char → Bool)
      (turned : (Char → Bool) → Char → Bool) (value : String) :
      Except ProblemKind (Char → Bool) :=
    match find? value with
    | some found => .ok (turned (holds found))
    | none => .error .propertyValueNotFound

end ProjectBuild.Regex.Property
