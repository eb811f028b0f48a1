/-! The words with a meaning of their own in a source text. No word stands before a longer one
that begins with it. -/
namespace PascalTokens.Pascal

def directiveNames : List String :=
  ["IMPLICITEXCEPTIONS", "SAFEFPUEXCEPTIONS", "WEAKPACKAGEUNIT", "VARSTRINGCHECKS",
   "MAXFPUREGISTERS", "EXTENDEDSYNTAX", "PASCALMAINNAME", "OVERFLOWCHECKS", "MINFPCONSTPREC",
   "WRITEABLECONST", "VARPROPSETTER", "FRAMEWORKPATH", "REFERENCEINFO", "TYPEDADDRESS",
   "LINKFRAMEWORK", "MINSTACKSIZE", "MAXSTACKSIZE", "LOCALSYMBOLS", "STRINGCHECKS",
   "OPTIMIZATION", "OBJECTCHECKS", "CHECKPOINTER", "POINTERMATH", "OPENSTRINGS", "LIBRARYPATH",
   "INCLUDEPATH", "DESCRIPTION", "SCOPEDENUMS", "RANGECHECKS", "PACKRECORDS", "MINENUMSIZE",
   "LONGSTRINGS", "EXTERNALSYM", "EXTENDEDSYM", "STACKFRAMES", "THREADNAME", "SETPEFLAGS",
   "SCREENNAME", "OBJECTPATH", "MODESWITCH", "SATURATION", "IEEEERRORS", "INTERFACES",
   "COPERATORS", "BITPACKING", "ASSERTIONS", "SMARTLINK", "LIBSUFFIX", "LIBPREFIX", "IMAGEBASE",
   "EXTENSION", "DEBUGINFO", "COPYRIGHT", "LIBEXPORT", "ENDREGION", "CODEALIGN", "UNITPATH",
   "SYSCALLS", "CODEPAGE", "WARNINGS", "RESOURCE", "PACKENUM", "NODEFINE", "TYPEINFO",
   "BOOLEVAL", "IOCHECKS", "VERSION", "PROFILE", "APPTYPE", "APPNAME", "WARNING", "MESSAGE",
   "LINKLIB", "INCLUDE", "HPPEMIT", "FPUTYPE", "DEFINEC", "CALLING", "ASMMODE", "PACKSET",
   "MEMORY", "UNDEFC", "REGION", "INLINE", "ERRORC", "ELSEIF", "DEFINE", "IFNDEF", "APPID",
   "UNDEF", "NOTES", "MACRO", "IFOPT", "IFDEF", "HINTS", "FATAL", "ERROR", "ENDIF", "ELIFC",
   "ELSEC", "ALIGN", "MODE", "WARN", "WAIT", "STOP", "SETC", "PUSH", "NOTE", "LINK", "INFO",
   "HINT", "GOTO", "ENDC", "ELSE", "IFC", "PIC", "POP", "MMX", "IF", "Z4", "Z2", "Z1", "OV",
   "A8", "A4", "A2", "A1"]

def reservedWords : List String :=
  ["implementation", "resourcestring", "initialization", "unimplemented", "saveregisters",
   "dispinterface", "nostackframe", "experimental", "finalization", "constructor", "reintroduce",
   "destructor", "specialize", "oldfpccall", "implements", "enumerator", "deprecated",
   "unaligned", "softfloat", "published", "protected", "otherwise", "nodefault", "interrupt",
   "bitpacked", "assembler", "threadvar", "procedure", "interface", "inherited", "continue",
   "function", "absolute", "safecall", "register", "platform", "override", "overload",
   "noreturn", "external", "abstract", "property", "operator", "forward", "boolean", "virtual",
   "varargs", "stdcall", "private", "message", "iocheck", "generic", "dynamic", "default",
   "cppdecl", "library", "finally", "exports", "program", "integer", "writeln", "downto",
   "readln", "winapi", "strict", "stored", "static", "result", "public", "pascal", "helper",
   "export", "packed", "inline", "except", "string", "repeat", "record", "object", "alias",
   "const", "begin", "array", "write", "local", "index", "far16", "cdecl", "break", "raise",
   "class", "while", "until", "label", "goto", "file", "case", "char", "real", "read", "near",
   "name", "cvar", "with", "uses", "unit", "type", "then", "self", "else", "for", "end", "div",
   "asm", "and", "far", "try", "out", "xor", "var", "shr", "shl", "set", "not", "nil", "mod",
   "is", "to", "if", "as", "of", "do", "in", "on", "or"]

end PascalTokens.Pascal
