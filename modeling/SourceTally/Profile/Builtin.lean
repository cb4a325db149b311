import SourceTally.Profile.Declaration

/-!
# Built-in languages

The languages that are known without any declaration. Their order is the order of the registry
that starts out with them, and decides which of two languages gets an extension that both claim:
the later one.
-/

namespace SourceTally.Profile

/-- The declarations of the built-in languages. -/
def builtin : List Declaration :=
  [ { id := "c"
      name := some "C"
      extensions := ["c", "h"]
      lineComments := ["//"]
      blockComments := [{ opening := "/*", closing := "*/" }]
      strings := [
        { opening := "\"", escape := some "\\" },
        { opening := "'", escape := some "\\" }] },
    { id := "cpp"
      name := some "C++"
      extensions := ["cpp", "cc", "cxx", "c++", "hpp", "hh", "hxx", "h++", "ino"]
      lineComments := ["//"]
      blockComments := [{ opening := "/*", closing := "*/" }]
      strings := [
        { opening := "\"", escape := some "\\" },
        { opening := "'", escape := some "\\" },
        { opening := "R\"(", closing := some ")\"", multiline := true }] },
    { id := "cuda"
      name := some "CUDA"
      extensions := ["cu", "cuh"]
      lineComments := ["//"]
      blockComments := [{ opening := "/*", closing := "*/" }]
      strings := [
        { opening := "\"", escape := some "\\" },
        { opening := "'", escape := some "\\" }] },
    { id := "csharp"
      name := some "C#"
      extensions := ["cs"]
      lineComments := ["//"]
      blockComments := [{ opening := "/*", closing := "*/" }]
      strings := [
        { opening := "@\"", closing := some "\"", escape := some "double", multiline := true },
        { opening := "\"\"\"", multiline := true },
        { opening := "\"", escape := some "\\" },
        { opening := "'", escape := some "\\" }] },
    { id := "java"
      name := some "Java"
      extensions := ["java"]
      lineComments := ["//"]
      blockComments := [{ opening := "/*", closing := "*/" }]
      strings := [
        { opening := "\"\"\"", escape := some "\\", multiline := true },
        { opening := "\"", escape := some "\\" },
        { opening := "'", escape := some "\\" }] },
    { id := "kotlin"
      name := some "Kotlin"
      extensions := ["kt", "kts"]
      lineComments := ["//"]
      blockComments := [{ opening := "/*", closing := "*/", nestable := true }]
      strings := [
        { opening := "\"\"\"", multiline := true },
        { opening := "\"", escape := some "\\" },
        { opening := "'", escape := some "\\" }] },
    { id := "scala"
      name := some "Scala"
      extensions := ["scala", "sc"]
      lineComments := ["//"]
      blockComments := [{ opening := "/*", closing := "*/", nestable := true }]
      strings := [
        { opening := "\"\"\"", multiline := true },
        { opening := "\"", escape := some "\\" }] },
    { id := "swift"
      name := some "Swift"
      extensions := ["swift"]
      lineComments := ["//"]
      blockComments := [{ opening := "/*", closing := "*/", nestable := true }]
      strings := [
        { opening := "\"\"\"", escape := some "\\", multiline := true },
        { opening := "\"", escape := some "\\" }] },
    { id := "go"
      name := some "Go"
      extensions := ["go"]
      lineComments := ["//"]
      blockComments := [{ opening := "/*", closing := "*/" }]
      strings := [
        { opening := "`", multiline := true },
        { opening := "\"", escape := some "\\" },
        { opening := "'", escape := some "\\" }] },
    { id := "rust"
      name := some "Rust"
      extensions := ["rs"]
      lineComments := ["//"]
      blockComments := [{ opening := "/*", closing := "*/", nestable := true }]
      strings := [
        { opening := "r##\"", closing := some "\"##", multiline := true },
        { opening := "r#\"", closing := some "\"#", multiline := true },
        { opening := "\"", escape := some "\\", multiline := true },
        { opening := "'\"", closing := some "'" },
        { opening := "'\\\"", closing := some "'" }] },
    { id := "javascript"
      name := some "JavaScript"
      extensions := ["js", "mjs", "cjs", "jsx"]
      lineComments := ["//"]
      blockComments := [{ opening := "/*", closing := "*/" }]
      strings := [
        { opening := "`", escape := some "\\", multiline := true },
        { opening := "\"", escape := some "\\" },
        { opening := "'", escape := some "\\" }] },
    { id := "typescript"
      name := some "TypeScript"
      extensions := ["ts", "tsx", "mts", "cts"]
      lineComments := ["//"]
      blockComments := [{ opening := "/*", closing := "*/" }]
      strings := [
        { opening := "`", escape := some "\\", multiline := true },
        { opening := "\"", escape := some "\\" },
        { opening := "'", escape := some "\\" }] },
    { id := "php"
      name := some "PHP"
      extensions := ["php", "phtml"]
      lineComments := ["//", "#"]
      blockComments := [{ opening := "/*", closing := "*/" }]
      strings := [
        { opening := "\"", escape := some "\\", multiline := true },
        { opening := "'", escape := some "\\", multiline := true }] },
    { id := "css"
      name := some "CSS"
      extensions := ["css"]
      blockComments := [{ opening := "/*", closing := "*/" }]
      strings := [
        { opening := "\"", escape := some "\\" },
        { opening := "'", escape := some "\\" }] },
    { id := "scss"
      name := some "SCSS"
      extensions := ["scss", "less"]
      lineComments := ["//"]
      blockComments := [{ opening := "/*", closing := "*/" }]
      strings := [
        { opening := "\"", escape := some "\\" },
        { opening := "'", escape := some "\\" }] },
    { id := "python"
      name := some "Python"
      extensions := ["py", "pyw", "pyi"]
      lineComments := ["#"]
      strings := [
        { opening := "\"\"\"", escape := some "\\", multiline := true },
        { opening := "'''", escape := some "\\", multiline := true },
        { opening := "\"", escape := some "\\" },
        { opening := "'", escape := some "\\" }] },
    { id := "ruby"
      name := some "Ruby"
      extensions := ["rb", "rake", "gemspec"]
      fileNames := ["Rakefile", "Gemfile"]
      lineComments := ["#"]
      strings := [
        { opening := "\"", escape := some "\\", multiline := true },
        { opening := "'", escape := some "\\", multiline := true }] },
    { id := "shell"
      name := some "Shell"
      extensions := ["sh", "bash", "zsh"]
      lineComments := ["#"]
      strings := [
        { opening := "\"", escape := some "\\", multiline := true },
        { opening := "'", multiline := true }] },
    { id := "fortran"
      name := some "Fortran"
      extensions := ["f90", "f95", "f03", "f08"]
      lineComments := ["!"]
      strings := [
        { opening := "'", escape := some "double" },
        { opening := "\"", escape := some "double" }] },
    { id := "sql"
      name := some "SQL"
      extensions := ["sql"]
      lineComments := ["--"]
      blockComments := [{ opening := "/*", closing := "*/" }]
      strings := [
        { opening := "'", escape := some "double", multiline := true },
        { opening := "\"", escape := some "double" }] },
    { id := "pascal"
      name := some "Pascal"
      extensions := ["pas", "pp", "dpr", "lpr"]
      lineComments := ["//"]
      blockComments := [{ opening := "\x7b", closing := "\x7d" },
        { opening := "(*", closing := "*)" }]
      strings := [
        { opening := "\x7b$", closing := some "\x7d", multiline := true },
        { opening := "(*$", closing := some "*)", multiline := true },
        { opening := "'", escape := some "double" }] },
    { id := "haskell"
      name := some "Haskell"
      extensions := ["hs", "lhs"]
      lineComments := ["--"]
      blockComments := [{ opening := "\x7b-", closing := "-\x7d", nestable := true }]
      strings := [
        { opening := "\"", escape := some "\\" }] },
    { id := "lua"
      name := some "Lua"
      extensions := ["lua"]
      lineComments := ["--"]
      blockComments := [{ opening := "--[[", closing := "]]" }]
      strings := [
        { opening := "[[", closing := some "]]", multiline := true },
        { opening := "\"", escape := some "\\" },
        { opening := "'", escape := some "\\" }] },
    { id := "html"
      name := some "HTML"
      extensions := ["html", "htm", "xhtml"]
      blockComments := [{ opening := "<!--", closing := "-->" }] },
    { id := "xml"
      name := some "XML"
      extensions := ["xml", "xsd", "xsl", "svg"]
      blockComments := [{ opening := "<!--", closing := "-->" }] },
    { id := "yaml"
      name := some "YAML"
      extensions := ["yml", "yaml"]
      lineComments := ["#"]
      strings := [
        { opening := "\"", escape := some "\\" },
        { opening := "'", escape := some "double" }] },
    { id := "toml"
      name := some "TOML"
      extensions := ["toml"]
      lineComments := ["#"]
      strings := [
        { opening := "\"\"\"", escape := some "\\", multiline := true },
        { opening := "'''", multiline := true },
        { opening := "\"", escape := some "\\" },
        { opening := "'" }] },
    { id := "makefile"
      name := some "Makefile"
      extensions := ["mk", "mak"]
      fileNames := ["Makefile", "GNUmakefile", "makefile"]
      lineComments := ["#"] },
    { id := "dockerfile"
      name := some "Dockerfile"
      extensions := ["dockerfile"]
      fileNames := ["Dockerfile"]
      lineComments := ["#"] } ]

end SourceTally.Profile
