/-! # Charsets

A charset is known under many names: names are compared in lower case with every run of other
characters than letters, digits and points read as one underscore. What matters of a charset is which
characters it represents; a few names belong to transformations of bytes, which represent no text.
-/
namespace Mustache

inductive Charset where
  | ascii
  | latin1
  | latin9
  | windows1252
  | unicode (name : String)
  | transform (name : String)
  deriving DecidableEq, Repr

namespace Charset

def name : Charset → String
  | ascii => "ascii"
  | latin1 => "iso8859-1"
  | latin9 => "iso8859-15"
  | windows1252 => "cp1252"
  | unicode name | transform name => name

def isTextEncoding : Charset → Bool
  | transform _ => false
  | _ => true

/-- Code points that the ninth Latin part has beyond the first 256, one for each it lacks of them. -/
def latin9Extra : List Nat :=
  [0x20AC, 0x160, 0x161, 0x17D, 0x17E, 0x152, 0x153, 0x178]

/-- The code points of the first 256 that give way to those. -/
def latin9Missing : List Nat :=
  [0xA4, 0xA6, 0xA8, 0xB4, 0xB8, 0xBC, 0xBD, 0xBE]

/-- Code points that the Windows charset has in the place of the controls from 0x80 to 0x9F. -/
def windows1252Extra : List Nat :=
  [0x20AC, 0x201A, 0x192, 0x201E, 0x2026, 0x2020, 0x2021, 0x2C6, 0x2030, 0x160, 0x2039, 0x152,
    0x17D, 0x2018, 0x2019, 0x201C, 0x201D, 0x2022, 0x2013, 0x2014, 0x2DC, 0x2122, 0x161, 0x203A,
    0x153, 0x17E, 0x178]

def represents (charset : Charset) (c : Char) : Bool :=
  let n := c.toNat
  match charset with
  | ascii => n < 0x80
  | latin1 => n < 0x100
  | latin9 => (n < 0x100 && !latin9Missing.contains n) || latin9Extra.contains n
  | windows1252 => n < 0x80 || (0xA0 ≤ n && n < 0x100) || windows1252Extra.contains n
  | unicode _ => true
  | transform _ => false

def aliases : List (Charset × List String) := [
  (ascii, ["646", "ansi_x3.4_1968", "ansi_x3.4_1986", "ansi_x3_4_1968", "ascii", "cp367", "csascii",
    "ibm367", "iso646_us", "iso_646.irv_1991", "iso_ir_6", "us", "us_ascii"]),
  (latin1, ["8859", "cp819", "csisolatin1", "ibm819", "iso8859", "iso8859_1", "iso_8859_1",
    "iso_8859_1_1987", "iso_ir_100", "l1", "latin", "latin1", "latin_1"]),
  (latin9, ["iso8859_15", "iso_8859_15", "l9", "latin9"]),
  (windows1252, ["1252", "cp1252", "windows_1252"]),
  (unicode "utf-7", ["u7", "unicode_1_1_utf_7", "utf7", "utf_7"]),
  (unicode "utf-8", ["cp65001", "u8", "utf", "utf8", "utf8_ucs2", "utf8_ucs4", "utf_8"]),
  (unicode "utf-8-sig", ["utf_8_sig"]),
  (unicode "utf-16", ["u16", "utf16", "utf_16"]),
  (unicode "utf-16-le", ["unicodelittleunmarked", "utf_16_le", "utf_16le"]),
  (unicode "utf-16-be", ["unicodebigunmarked", "utf_16_be", "utf_16be"]),
  (unicode "utf-32", ["u32", "utf32", "utf_32"]),
  (unicode "utf-32-le", ["utf_32_le", "utf_32le"]),
  (unicode "utf-32-be", ["utf_32_be", "utf_32be"]),
  (transform "base64", ["base64", "base64_codec", "base_64"]),
  (transform "bz2", ["bz2", "bz2_codec"]),
  (transform "hex", ["hex", "hex_codec"]),
  (transform "quopri", ["quopri", "quopri_codec", "quoted_printable", "quotedprintable"]),
  (transform "rot-13", ["rot13", "rot_13"]),
  (transform "uu", ["uu", "uu_codec"]),
  (transform "zlib", ["zip", "zlib", "zlib_codec"])]

/-- The compared form of a name; `gap` holds where other characters came before the rest of it. -/
def compared (gap : Bool) : List Char → List Char
  | [] => []
  | c :: cs =>
    if c.isAlphanum || c = '.' then
      if gap then '_' :: c.toLower :: compared false cs else c.toLower :: compared false cs
    else compared true cs

/-- The compared form of a name: other characters at its ends are dropped. -/
def comparedName (name : String) : String :=
  String.ofList (compared false (name.toList.dropWhile fun c => !(c.isAlphanum || c = '.')))

def find? (name : String) : Option Charset :=
  (aliases.find? (·.2.contains (comparedName name))).map (·.1)

end Charset
end Mustache
