import PascalTokens.Catalog

/-! The rules of Pascal in writing. -/
namespace PascalTokens.Pascal

def directiveExpression : String :=
  "(?i)\\\x7b\\$(?:" ++ "|".intercalate directiveNames ++
    "|[A-JL-TV-Z])(?:[+-]|\\s[^\x7d]*)?\\\x7d"

def reservedWordExpression : String := "(?i)(?:" ++ "|".intercalate reservedWords ++ ")"

def rules : List Rule := [
  ⟨.compilerDirective,directiveExpression⟩,
  ⟨.comment,"\\\x7b(?:[^$\x7d][^\x7d]*)?\\\x7d"⟩,
  ⟨.comment,"\\(\\*.*?\\*\\)"⟩,
  ⟨.comment,"//.*"⟩,
  ⟨.reservedWord,reservedWordExpression⟩,
  ⟨.operator,":=|<=|>=|<>|><|\\*\\*|\\+=|-=|\\*=|/=|\\.\\.|[-+*/=<>\\[\\]^@$#&%]"⟩,
  ⟨.number,"\\$[0-9A-Fa-f]+|&[0-7]+|%[01]+|\\d+(?:\\.\\d+)?(?:[eE][-+]?\\d+)?"⟩,
  ⟨.stringOrCharacter,"(?:'(?:[^']|'')*'|#\\$[0-9A-Fa-f]+|#\\d+)+"⟩,
  ⟨.separator,"[\x7b\x7d(),;:.]"⟩,
  ⟨.identifier,"[A-Za-z_][A-Za-z0-9_]*"⟩,
  ⟨.invalid,"[\"~\x60]+|\\S"⟩]

end PascalTokens.Pascal
