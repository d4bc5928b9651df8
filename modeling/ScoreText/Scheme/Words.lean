/-!
Words of Scheme. A pattern only finds a word; these tables tell what it is.
-/
namespace ScoreText.Scheme.Words

def keywords : List String :=
  ["and", "begin", "case", "cond", "define", "define*", "define-public", "define-macro",
   "define-module", "define-syntax", "define-markup-command", "define-markup-list-command",
   "define-music-function", "define-scheme-function", "define-void-function", "delay", "do",
   "else", "if", "lambda", "lambda*", "let", "let*", "letrec", "letrec*", "or", "quasiquote",
   "quote", "set!", "unless", "unquote", "unquote-splicing", "when"]

def functions : List String :=
  ["abs", "append", "apply", "assoc", "assoc-get", "assoc-set!", "assq", "assv", "car", "cdr",
   "caar", "cadr", "cdar", "cddr", "char->integer", "cons", "display", "eq?", "equal?", "eqv?",
   "even?", "exact->inexact", "expt", "filter", "for-each", "format", "inexact->exact",
   "integer->char", "length", "list", "list-ref", "list?", "make-music", "map", "max", "member",
   "memq", "min", "modulo", "newline", "not", "null?", "number->string", "number?", "odd?",
   "pair?", "procedure?", "quotient", "reduce", "remainder", "reverse", "round",
   "string->number", "string->symbol", "string-append", "string-length", "string?", "substring",
   "symbol->string", "symbol?", "vector", "vector-ref", "ly:context-set-property!",
   "ly:grob-property", "ly:grob-set-property!", "ly:make-moment", "ly:make-pitch",
   "ly:music-length", "ly:music-property", "ly:music-set-property!", "ly:parser-include-string",
   "ly:stencil-extent", "make-line-markup", "markup", "interpret-markup"]

def knownVariables : List String :=
  ["UP", "DOWN", "LEFT", "RIGHT", "CENTER", "X", "Y", "INFINITY-INT", "PI",
   "begin-of-line-invisible", "end-of-line-invisible", "all-visible", "all-invisible",
   "center-visible", "begin-of-line-visible", "end-of-line-visible"]

def constants : List String :=
  ["#t", "#f", "else", "'()", "minimum-distance", "basic-distance", "padding", "stretchability"]

end ScoreText.Scheme.Words
