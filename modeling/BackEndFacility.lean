import BackEndFacility.Machine
import BackEndFacility.Projection
import BackEndFacility.Placement
import BackEndFacility.TaggedFreeList
import BackEndFacility.TaggedQueue
import BackEndFacility.AtomicOps
import BackEndFacility.LockFreeBuffer
import BackEndFacility.LockFreeList
import BackEndFacility.LockFreeListOrder
import BackEndFacility.BinaryHeap
import BackEndFacility.ThreadPool
import BackEndFacility.ThreadPoolShutdown
import BackEndFacility.ThreadPoolTasks
import BackEndFacility.ThreadPoolFreeWorkers
import BackEndFacility.ThreadPoolPriority
import BackEndFacility.WorkerLoop
import BackEndFacility.WorkerLoopTasks
import BackEndFacility.LogFile
import BackEndFacility.RecycledBuffers
import BackEndFacility.AsynLogAppender
import BackEndFacility.AsynLogDelivery
import BackEndFacility.AsynLogCrash
import BackEndFacility.FixedBufferPool
import BackEndFacility.FixedSlab
import BackEndFacility.AsynLogOwnership
import BackEndFacility.SharedBuffers
import BackEndFacility.LogAppenders
import BackEndFacility.AppenderIsolation
import BackEndFacility.SortedMap
import BackEndFacility.RangeSearch
import BackEndFacility.HttpMessage
import BackEndFacility.HttpBuffer
import BackEndFacility.HttpReadQueue
import BackEndFacility.HttpClient
import BackEndFacility.HttpParsing
import BackEndFacility.HttpTermination
import BackEndFacility.HttpSegmentation
import BackEndFacility.HttpHead
import BackEndFacility.HttpExchange
import BackEndFacility.HttpIsolation
import BackEndFacility.HttpPipeline
import BackEndFacility.HttpReuse
import BackEndFacility.HttpReset
import BackEndFacility.HttpBody
import BackEndFacility.SuccessorChain
import BackEndFacility.HttpWriteMemory
import BackEndFacility.HttpResponseStream
import BackEndFacility.HttpWriteDestroy
import BackEndFacility.Arena
import BackEndFacility.Numeral
import BackEndFacility.HttpSerialize
import BackEndFacility.HttpRoundTrip
import BackEndFacility.HttpWritePool
import BackEndFacility.HttpWriteClasses
import BackEndFacility.HttpResponseSize
import BackEndFacility.HttpDefaultHandler
import BackEndFacility.HttpAnswer
import BackEndFacility.HttpContentLength
import BackEndFacility.AtomicObject
import BackEndFacility.LockedObject
import BackEndFacility.LockFreeListSequential
import BackEndFacility.LockFreeQueue
import BackEndFacility.LockFreeStack
import BackEndFacility.LockFreeObservers
import BackEndFacility.SpinlockQueue
import BackEndFacility.PerThreadMemory
import BackEndFacility.PerThreadMemorySafety
import BackEndFacility.PerThreadLayout
import BackEndFacility.LogWorker
import BackEndFacility.LogWorkerSteps
import BackEndFacility.LogWorkerThread
import BackEndFacility.LogEntry
import BackEndFacility.LoggerStreams
import BackEndFacility.LogStream
import BackEndFacility.LogFileBuffer
import BackEndFacility.SynLogAppender
import BackEndFacility.CacheTimeStamp
import BackEndFacility.SlogLogger
import BackEndFacility.SlogFile
import BackEndFacility.SocketServer
import BackEndFacility.SocketRegistration
import BackEndFacility.SocketTable
import BackEndFacility.SocketAddresses
import BackEndFacility.EventDelivery
import BackEndFacility.HttpServer
import BackEndFacility.HttpAdmission
import BackEndFacility.HttpConnections
import BackEndFacility.HttpListener
import BackEndFacility.HttpWellFormed
import BackEndFacility.AsynLogStop
import BackEndFacility.LockFreeQueueBlocking
import BackEndFacility.LockFreeStackBlocking
