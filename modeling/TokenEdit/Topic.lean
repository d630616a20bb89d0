/-!
# Help

The help of the program is an overview and four topics.  A topic has several names, and how a name
is written matters little: capital letters count as small ones, and an underscore as a hyphen.
-/

namespace TokenEdit

/-- The topics of the help. -/
inductive Topic where
  | format
  | placeholders
  | followUps
  | matching
  deriving DecidableEq

namespace Topic

/-! ## Names -/

/-- The small letter of an ASCII capital or of the Kelvin sign, which is a capital K; other
characters do not occur in names of topics. -/
def smallLetter (c : Char) : Char :=
  if c = '\u212a' then 'k' else c.toLower

/-- A name as it is compared. -/
def normalName (name : List Char) : List Char :=
  name.map fun c => if c = '_' then '-' else smallLetter c

/-- The names of a topic. -/
def names : Topic → List String
  | format => ["format", "file", "rules"]
  | placeholders => ["placeholders", "captures", "id", "expr"]
  | followUps => ["follow-ups", "followups", "nested"]
  | matching => ["matching", "match", "tokens"]

/-- All topics. -/
def all : List Topic :=
  [format, placeholders, followUps, matching]

/-- The topic with the given name. -/
def ofName? (name : List Char) : Option Topic :=
  all.find? fun topic => topic.names.contains (String.ofList (normalName name))

/-! ## Texts -/

/-- A text from its lines. -/
def unlines (lines : List String) : String :=
  String.join (lines.map fun line => line ++ "\n")

/-- The list of the topics, with the most important marks. -/
def overview : String := unlines [
  "TOKPATCH DOCUMENTATION",
  "",
  "tokpatch rewrites source code with pattern => substitution rules. The source is",
  "split into tokens, and every rule in the rule file is applied, in order, over",
  "the whole token stream. No syntax tree is built.",
  "",
  "DOCUMENTATION CATEGORIES",
  "",
  "  format            Layout of a rule file: blocks, =>, comments",
  "  placeholders      ID and EXPR captures and how substitutions use them",
  "  follow-ups        Nested rules that run after a match, inside its scope",
  "  matching          Tokens, whitespace, comments and capture consistency",
  "",
  "QUICK REFERENCE",
  "",
  "  @@\x7b ... \x7d@@       Rule block",
  "  =>                Separates pattern from substitution",
  "  ID name           Capture one identifier",
  "  EXPR name ;       Capture everything up to ';' (brackets balanced)",
  "",
  "Run 'tokpatch doc <category>' for detailed documentation."]

/-- How a rule file is written. -/
def formatText : String := unlines [
  "FORMAT - Rule Files",
  "",
  "RULE BLOCKS",
  "  A rule starts with a line beginning with @@\x7b and ends with a line beginning",
  "  with \x7d@@. Lines before a line beginning with => are the pattern, lines after",
  "  it are the substitution.",
  "",
  "    @@\x7b",
  "    rtcInit ( )",
  "    =>",
  "    rtcNewDevice(NULL)",
  "    \x7d@@",
  "",
  "DELETING",
  "  Without a => line the substitution is empty and every match is removed.",
  "",
  "    @@\x7b",
  "    rtcDebug ( ) ;",
  "    \x7d@@",
  "",
  "BETWEEN BLOCKS",
  "  Blank lines and lines starting with // are ignored between blocks. Any other",
  "  text outside a block is an error.",
  "",
  "ORDER",
  "  Rules run one after the other, each over the output of the previous one.",
  "  Later rules can rely on the shapes earlier rules produced.",
  "",
  "ERRORS",
  "  Unclosed blocks, stray text and malformed placeholders abort the run with",
  "  the offending line number. Nothing is rewritten."]

/-- What patterns capture. -/
def placeholdersText : String := unlines [
  "PLACEHOLDERS - Captures",
  "",
  "ID name",
  "  Matches exactly one identifier and binds it to name.",
  "",
  "    @@\x7b",
  "    rtcDeleteGeometry ( ID scene , ID geom ) ;",
  "    =>",
  "    rtcDetachGeometry(scene, geom);",
  "    \x7d@@",
  "",
  "EXPR name terminator",
  "  Matches everything up to the next terminator token and binds it to name.",
  "  Parentheses and braces are skipped as a whole, so the capture may contain",
  "  the terminator inside them. The terminator itself is consumed.",
  "",
  "    @@\x7b",
  "    rtcIntersect ( EXPR scene , EXPR ray )",
  "    =>",
  "    rtcIntersect1(scene, &context, RTCRayHit_(ray))",
  "    \x7d@@",
  "",
  "  Against rtcIntersect(s, make(a, b)) this binds scene to s and ray to",
  "  make(a, b).",
  "",
  "SUBSTITUTION",
  "  Any identifier in the substitution that names a capture is replaced by the",
  "  captured tokens. Everything else, whitespace and comments included, is copied",
  "  as written. Continuation lines are indented to the column of the match."]

/-- What nested rules do. -/
def followUpsText : String := unlines [
  "FOLLOW-UPS - Nested Rules",
  "",
  "Rule blocks written inside another block, after its substitution, are",
  "follow-up rules. After each match of the outer rule they run, in order, over",
  "the rest of the current \x7b ... \x7d scope, starting with the captures of the outer",
  "match.",
  "",
  "    @@\x7b",
  "    RTCRay ID ray ;",
  "    =>",
  "    RTCRayHit ray;",
  "    @@\x7b",
  "    ID ray . geomID",
  "    =>",
  "    ray.hit.geomID",
  "    \x7d@@",
  "    \x7d@@",
  "",
  "  The follow-up starts with ray already bound, so ID ray only matches the",
  "  variable declared by the outer match. Uses are rewritten up to the brace",
  "  closing the scope of that declaration.",
  "",
  "  Captures bound by a follow-up rule are not visible to the outer rule."]

/-- How patterns are compared with a source. -/
def matchingText : String := unlines [
  "MATCHING - Tokens and Consistency",
  "",
  "TOKENS",
  "  identifiers       letters, digits and _, not starting with a digit",
  "  numbers           runs of digits (1.5 is 1 . 5)",
  "  brackets          ( ) [ ] \x7b \x7d",
  "  delimiters        newlines, spaces, tabs, // and /* */ comments",
  "  other             any other single character",
  "",
  "DELIMITERS",
  "  Delimiters are ignored while matching: f(a,b) and f ( a , b ) match the",
  "  same pattern. Code inside comments is never matched or rewritten.",
  "",
  "CONSISTENCY",
  "  Within one rule, a capture keeps the value of its first match. Later",
  "  matches of the same rule must capture the same tokens, ignoring layout, or",
  "  they are skipped.",
  "",
  "    @@\x7b",
  "    rtcCommit ( ID scene )",
  "    =>",
  "    rtcCommitScene(scene)",
  "    \x7d@@",
  "",
  "  Against rtcCommit(a); rtcCommit(b); only the first call is rewritten.",
  "  Every top-level rule starts with no captures.",
  "",
  "SCOPES",
  "  A rule stops scanning at a \x7d that closes a scope it did not see open. For",
  "  top-level rules this means an unbalanced \x7d ends the rewrite of the file."]

/-- The text of a topic. -/
def text : Topic → String
  | format => formatText
  | placeholders => placeholdersText
  | followUps => followUpsText
  | matching => matchingText

end Topic

end TokenEdit
